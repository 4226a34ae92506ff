/-
# The shipped template

The template of the answer file, and what its text is: a document with holes, where the
token of every key stands alone in an element, and in a comment besides. The comment that
explains the tokens has one more, which is no key.
-/

import WinDep.Data.XmlHoles
import WinDep.Deploy.Unattend
import Mathlib.Tactic.MkIffOfInductiveProp

namespace WinDep.Deploy

open Tokens Xml

/-- `unattend.template.xml` -/
def unattendTemplate : String :=
  r#"<?xml version="1.0" encoding="utf-8"?>
<!--
    WinDep OOBE unattend template (Windows 11 Pro, amd64).

    This is applied to W:\Windows\Panther\unattend.xml AFTER the image is laid down,
    so only the offlineServicing/specialize/oobeSystem passes matter here.

    Tokens in {BRACES} are substituted by Set-DeployUnattend (DeployEngine.psm1) from
    the resolved ZTP config. Values arrive over in-WinPE HTTPS only.

      {COMPUTERNAME}     - resolved machine name (<=15 chars)
      {TIMEZONE}         - e.g. "Eastern Standard Time"
      {LOCALADMINUSER}   - local admin account name
      {LOCALADMINPASS}   - local admin password (plaintext in XML on the target disk)
      {JOINDOMAIN}       - AD domain FQDN, or empty string for local-only
      {DOMAINOU}         - OU DN for the computer object (optional)
      {DOMAINUSER}       - account used to join the domain
      {DOMAINPASS}       - password for the domain-join account

    NOTE: If not joining a domain, leave JOINDOMAIN empty. The <Identification> block
    below is still emitted but an empty JoinDomain is ignored by Windows. To hard-remove
    domain join, delete the Microsoft-Windows-UnattendedJoin component before shipping.

    SECURITY: unattend.xml on the deployed disk contains the passwords above in the
    Panther folder. Windows normally scrubs it after OOBE; verify per your policy, or
    use a specialize-pass script to delete C:\Windows\Panther\unattend.xml.
-->
<unattend xmlns="urn:schemas-microsoft-com:unattend">

  <settings pass="specialize">
    <component name="Microsoft-Windows-Shell-Setup"
               processorArchitecture="amd64"
               publicKeyToken="31bf3856ad364e35"
               language="neutral" versionScope="nonSxS"
               xmlns:wcm="http://schemas.microsoft.com/WMIConfig/2002/State">
      <ComputerName>{COMPUTERNAME}</ComputerName>
      <TimeZone>{TIMEZONE}</TimeZone>
    </component>

    <!-- Domain join (ignored automatically when {JOINDOMAIN} is empty). -->
    <component name="Microsoft-Windows-UnattendedJoin"
               processorArchitecture="amd64"
               publicKeyToken="31bf3856ad364e35"
               language="neutral" versionScope="nonSxS"
               xmlns:wcm="http://schemas.microsoft.com/WMIConfig/2002/State">
      <Identification>
        <JoinDomain>{JOINDOMAIN}</JoinDomain>
        <MachineObjectOU>{DOMAINOU}</MachineObjectOU>
        <Credentials>
          <Domain>{JOINDOMAIN}</Domain>
          <Username>{DOMAINUSER}</Username>
          <Password>{DOMAINPASS}</Password>
        </Credentials>
      </Identification>
    </component>
  </settings>

  <settings pass="oobeSystem">
    <component name="Microsoft-Windows-International-Core"
               processorArchitecture="amd64"
               publicKeyToken="31bf3856ad364e35"
               language="neutral" versionScope="nonSxS"
               xmlns:wcm="http://schemas.microsoft.com/WMIConfig/2002/State">
      <InputLocale>en-US</InputLocale>
      <SystemLocale>en-US</SystemLocale>
      <UILanguage>en-US</UILanguage>
      <UserLocale>en-US</UserLocale>
    </component>

    <component name="Microsoft-Windows-Shell-Setup"
               processorArchitecture="amd64"
               publicKeyToken="31bf3856ad364e35"
               language="neutral" versionScope="nonSxS"
               xmlns:wcm="http://schemas.microsoft.com/WMIConfig/2002/State">

      <!-- Skip every OOBE prompt, including the Microsoft-account requirement. -->
      <OOBE>
        <HideEULAPage>true</HideEULAPage>
        <HideLocalAccountScreen>true</HideLocalAccountScreen>
        <HideOEMRegistrationScreen>true</HideOEMRegistrationScreen>
        <HideOnlineAccountScreens>true</HideOnlineAccountScreens>
        <HideWirelessSetupInOOBE>true</HideWirelessSetupInOOBE>
        <ProtectYourPC>3</ProtectYourPC>
        <SkipMachineOOBE>true</SkipMachineOOBE>
        <SkipUserOOBE>true</SkipUserOOBE>
      </OOBE>

      <!-- Local admin account created up front. -->
      <UserAccounts>
        <LocalAccounts>
          <LocalAccount wcm:action="add">
            <Name>{LOCALADMINUSER}</Name>
            <Group>Administrators</Group>
            <DisplayName>{LOCALADMINUSER}</DisplayName>
            <Password>
              <Value>{LOCALADMINPASS}</Value>
              <PlainText>true</PlainText>
            </Password>
          </LocalAccount>
        </LocalAccounts>
      </UserAccounts>

      <!-- Bypass the Windows 11 online-account / network requirement during OOBE. -->
      <RunSynchronous>
        <RunSynchronousCommand wcm:action="add">
          <Order>1</Order>
          <Path>reg add HKLM\SOFTWARE\Microsoft\Windows\CurrentVersion\OOBE /v BypassNRO /t REG_DWORD /d 1 /f</Path>
          <Description>Bypass network requirement in OOBE</Description>
        </RunSynchronousCommand>
      </RunSynchronous>

      <TimeZone>{TIMEZONE}</TimeZone>
      <RegisteredOrganization>JHICS</RegisteredOrganization>
    </component>
  </settings>

</unattend>
"#

/-- The names of the tokens of the template, and the one the resolver adds to them. -/
inductive UnattendKey
  | computerName
  | timeZone
  | localAdminUser
  | localAdminPass
  | joinDomain
  | domainOu
  | domainUser
  | domainPass
  | serial
  deriving DecidableEq

namespace UnattendKey

def spelling : UnattendKey → String
  | computerName => "COMPUTERNAME"
  | timeZone => "TIMEZONE"
  | localAdminUser => "LOCALADMINUSER"
  | localAdminPass => "LOCALADMINPASS"
  | joinDomain => "JOINDOMAIN"
  | domainOu => "DOMAINOU"
  | domainUser => "DOMAINUSER"
  | domainPass => "DOMAINPASS"
  | serial => "SERIAL"

def name (k : UnattendKey) : TokenName := ⟨k.spelling.toList, by cases k <;> decide⟩

/-- The keys whose tokens the template has. -/
def placed : List UnattendKey :=
  [computerName, timeZone, localAdminUser, localAdminPass, joinDomain, domainOu, domainUser,
    domainPass]

def all : List UnattendKey := placed ++ [serial]

theorem mem_all (k : UnattendKey) : k ∈ all := by cases k <;> decide

theorem mem_placed {k : UnattendKey} : k ∈ placed ↔ k ≠ serial := by cases k <;> decide

theorem name_injective : Function.Injective name := by
  intro k l h
  have hspelling : k.spelling.toList = l.spelling.toList := congrArg Subtype.val h
  revert hspelling
  cases k <;> cases l <;> decide

end UnattendKey

/-- The word in braces by which a comment of the template explains what a token is. -/
def explained : TokenName := ⟨"BRACES".toList, by decide⟩

/-- The names of the tokens of the template. -/
def noted : List TokenName := explained :: UnattendKey.placed.map UnattendKey.name

/-- The template, cut at its tokens. -/
def cutTemplate (template : List Char) : Layout '\x7b' '\x7d' := Layout.cut noted 0 template

theorem render_cutTemplate (template : List Char) :
    (cutTemplate template).render (fun k => some (token k)) = template := by
  rw [← Layout.render_none, cutTemplate, Layout.render_cut, List.drop_zero]

/-- What stands around the tokens. -/
def isBorder (c : Char) : Bool := c = ' ' || c = '<' || c = '>'

/-- A token as it is read. -/
def ownText (k : TokenName) : List Char := lineEnds false (token k)

/-- Every token of the template stands in a comment, and those of the keys alone in an element. -/
@[mk_iff]
structure Shipped (y : Layout '\x7b' '\x7d') (q : Outline '\x7b' '\x7d') : Prop where
  bordered : y.Bordered isBorder
  unbroken : Unbroken y
  unopened : y.Unopened
  accepted : accepts q.state
  holes : ∀ k ∈ y.holes, k ∈ noted
  notes : ∀ k ∈ q.notes, k ∈ noted
  complete : ∀ k ∈ noted, k ∈ q.notes
  elements : ∀ k ∈ UnattendKey.placed, ∃ p ∈ pieces q.items, p.2 = [.inr k.name]
  alone : ∀ p ∈ pieces q.items, ∀ k ∈ UnattendKey.all,
    p.2.flatMap (fillItem ownText) = token k.name → k ∈ UnattendKey.placed ∧ p.2 = [.inr k.name]

instance (y : Layout '\x7b' '\x7d') (q : Outline '\x7b' '\x7d') : Decidable (Shipped y q) :=
  decidable_of_iff _ (shipped_iff y q).symm

set_option maxRecDepth 100000 in
theorem exists_shipped : ∃ q, track initial (cutTemplate unattendTemplate.toList) = some q ∧
    Shipped (cutTemplate unattendTemplate.toList) q := by
  -- the check is evaluated on the list of the characters, which the string is made of
  have hchecked : ∃ text, ((track initial (cutTemplate text)).any fun q =>
      decide (Shipped (cutTemplate text) q)) = true ∧ unattendTemplate.toList = text :=
    ⟨_, by decide +kernel, String.toList_ofList⟩
  obtain ⟨text, hchecked, rfl⟩ := hchecked
  obtain ⟨q, hq, hshipped⟩ := (Option.any_eq_true _ _).mp hchecked
  exact ⟨q, hq, of_decide_eq_true hshipped⟩

end WinDep.Deploy
