/-
# Log lines

The callbacks write the level of a log line in front of its message, and
`Send-ZtpLog` takes it off again with a regular expression. What white space the
message begins with is taken off, too, and a message of several lines is not
taken apart.
-/

import WinDep.Data.Regex
import WinDep.Deploy.PowerShell
import WinDep.Deploy.Shipping

namespace WinDep.Deploy

open Regex

/-! ## `Send-ZtpLog` -/

/-- Characters that are the same to `-match`. -/
def PowerShell.sameChar (ps : PowerShell) (c d : Char) : Bool := ps.lower c == ps.lower d

/-- `(INFO|WARN|ERROR)` -/
def levelPattern (ps : PowerShell) : Regex :=
  .group 1 (.alt (word ps.sameChar Level.info.text.toList)
    (.alt (word ps.sameChar Level.warn.text.toList)
      (word ps.sameChar Level.error.text.toList)))

/-- `\s*(.*)$` -/
def textPattern : Regex :=
  .seq (.many isWhiteSpace) (.seq (.group 2 (.many (· != '\n'))) .atEnd)

/-- `^\[(INFO|WARN|ERROR)\]\s*(.*)$` -/
def linePattern (ps : PowerShell) : Regex :=
  .seq .atStart (.seq (.one (· == '[')) (.seq (levelPattern ps) (.seq (.one (· == ']'))
    textPattern)))

/-- `$Matches[i]` -/
def matched (i : ℕ) (k : Cursor) : String := String.ofList ((k.groups.lookup i).getD [])

/-- A line that is posted. -/
structure LogEntry where
  ts : String
  level : String
  message : String

/-- A line, split by the pattern. -/
def logEntry (ps : PowerShell) (ts : String) (l : String) : LogEntry :=
  match search (linePattern ps) true l.toList with
  | some k => ⟨ts, matched 1 k, matched 2 k⟩
  | none => ⟨ts, "INFO", l⟩

/-- The lines that `Send-ZtpLog` posts. -/
def sendZtpLog (ps : PowerShell) (ts : String) (lines : List String) : List LogEntry :=
  lines.map (logEntry ps ts)

/-! ## The level -/

variable {ps : PowerShell} {level : Level} {message : List Char} {k : Cursor}

/-- `\]\s*(.*)$` -/
def afterLevel : Regex := .seq (.one (· == ']')) textPattern

theorem ways_afterLevel (start : Bool) (cs : List Char) (groups : List (ℕ × List Char)) :
    ways afterLevel ⟨start, ']' :: cs, groups⟩ = ways textPattern ⟨false, cs, groups⟩ :=
  List.flatMap_singleton _ _

theorem ways_afterLevel_eq_nil {c : Char} {start : Bool} {cs : List Char}
    {groups : List (ℕ × List Char)} (h : (c == ']') = false) :
    ways afterLevel ⟨start, c :: cs, groups⟩ = [] := by
  simp [afterLevel, ways, h]

/-- A level of the pattern leads on only where it is as long as that of the line. -/
theorem ways_word_level (w : Level) :
    (ways (.group 1 (word ps.sameChar w.text.toList))
        ⟨false, level.text.toList ++ ']' :: ' ' :: message, []⟩).flatMap (ways afterLevel) =
      if begins ps.sameChar w.text.toList (level.text.toList ++ ']' :: ' ' :: message) = true ∧
          w.text.toList.length = level.text.toList.length then
        ways textPattern ⟨false, ' ' :: message, [(1, level.text.toList)]⟩ else [] := by
  obtain ⟨start', hways⟩ := exists_ways_group_word ps.sameChar w.text.toList 1 false
    (level.text.toList ++ ']' :: ' ' :: message) []
  rw [hways]
  by_cases hbegins :
      begins ps.sameChar w.text.toList (level.text.toList ++ ']' :: ' ' :: message) = true
  · rw [if_pos hbegins, List.flatMap_singleton]
    by_cases hlength : w.text.toList.length = level.text.toList.length
    · rw [if_pos ⟨hbegins, hlength⟩, List.drop_left' hlength.symm, List.take_left' hlength.symm,
        ways_afterLevel]
    · -- a shorter word stops before a letter, a longer one before the blank
      rw [if_neg fun h => hlength h.2]
      cases w <;> cases level <;>
        first | exact absurd rfl hlength | exact ways_afterLevel_eq_nil rfl
  · rw [if_neg hbegins, if_neg fun h => hbegins h.1, List.flatMap_nil]

/-- The level is found as it was written. -/
theorem search_linePattern (ps : PowerShell) (level : Level) (message : List Char) :
    search (linePattern ps) true ('[' :: level.text.toList ++ ']' :: ' ' :: message) =
      (ways textPattern ⟨false, ' ' :: message, [(1, level.text.toList)]⟩).head? := by
  have hself (w : Level) (hw : w = level) :
      begins ps.sameChar w.text.toList (level.text.toList ++ ']' :: ' ' :: message) = true ∧
        w.text.toList.length = level.text.toList.length := by
    subst hw
    exact ⟨begins_self ps.sameChar (fun c => beq_self_eq_true (ps.lower c)) _, rfl⟩
  have hways : ways (.seq (.one (· == '[')) (.seq (levelPattern ps) afterLevel))
      ⟨true, '[' :: level.text.toList ++ ']' :: ' ' :: message, []⟩ =
        (ways (levelPattern ps) ⟨false, level.text.toList ++ ']' :: ' ' :: message, []⟩).flatMap
          (ways afterLevel) :=
    List.flatMap_singleton _ _
  rw [linePattern, search_atStart]
  change (ways (.seq (.one (· == '[')) (.seq (levelPattern ps) afterLevel)) _).head? = _
  rw [hways, levelPattern, ways_group_alt, ways_group_alt, List.flatMap_append,
    List.flatMap_append, ways_word_level, ways_word_level, ways_word_level]
  -- every alternative that leads on leads to the same places
  generalize ways textPattern _ = places
  cases level with
  | info => rw [if_pos (hself .info rfl)]; split_ifs <;> simp
  | warn => rw [if_pos (hself .warn rfl)]; split_ifs <;> simp
  | error => rw [if_pos (hself .error rfl)]; split_ifs <;> simp

/-! ## The text -/

variable {groups : List (ℕ × List Char)} {cs : List Char}

/-- Without a line feed the text is all but the white space before it. -/
theorem exists_ways_textPattern (groups : List (ℕ × List Char)) (h : '\n' ∉ cs) :
    ∃ k, (ways textPattern ⟨false, ' ' :: cs, groups⟩).head? = some k ∧
      k.groups = (2, cs.dropWhile isWhiteSpace) :: groups := by
  have hall : ∀ c ∈ cs.dropWhile isWhiteSpace, (c != '\n') = true := by
    intro c hc
    have hne : c ≠ '\n' := fun heq => h (heq ▸ (List.dropWhile_sublist _).mem hc)
    simpa using hne
  have hblank : (' ' :: cs).dropWhile isWhiteSpace = cs.dropWhile isWhiteSpace :=
    List.dropWhile_cons_of_pos (by decide)
  -- the longest text is the whole rest, which ends there
  have htext (start : Bool) : ∃ start' shorter,
      ways (.seq (.group 2 (.many (· != '\n'))) .atEnd)
        ⟨start, cs.dropWhile isWhiteSpace, groups⟩ =
      ⟨start', [], (2, cs.dropWhile isWhiteSpace) :: groups⟩ :: shorter := by
    obtain ⟨start', shorter, hways⟩ := exists_ways_group_many (· != '\n') 2
      ⟨start, cs.dropWhile isWhiteSpace, groups⟩
    rw [List.dropWhile_eq_nil_iff.mpr hall, List.takeWhile_eq_self_iff.mpr hall] at hways
    refine ⟨start', shorter.flatMap (ways .atEnd), ?_⟩
    rw [ways, hways, List.flatMap_cons]
    rfl
  have hne (start : Bool) : ways (.seq (.group 2 (.many (· != '\n'))) .atEnd)
      ⟨start, (' ' :: cs).dropWhile isWhiteSpace, groups⟩ ≠ [] := by
    obtain ⟨start', shorter, hways⟩ := htext start
    rw [hblank, hways]
    exact List.cons_ne_nil _ _
  obtain ⟨start, hhead⟩ := exists_head?_many_seq isWhiteSpace
    (.seq (.group 2 (.many (· != '\n'))) .atEnd) ⟨false, ' ' :: cs, groups⟩ hne
  obtain ⟨start', shorter, hways⟩ := htext start
  rw [hblank, hways] at hhead
  exact ⟨_, hhead, rfl⟩

/-- The text has no line feed. -/
theorem mem_ways_textPattern (h : k ∈ ways textPattern ⟨false, cs, groups⟩) :
    ∃ text, k.groups = (2, text) :: groups ∧ '\n' ∉ text := by
  rw [textPattern, ways, List.mem_flatMap] at h
  obtain ⟨k₁, hk₁, h⟩ := h
  rw [ways, List.mem_flatMap] at h
  obtain ⟨k₂, hk₂, h⟩ := h
  rw [ways] at hk₂
  obtain ⟨k₃, hk₃, rfl⟩ := List.mem_map.mp hk₂
  obtain ⟨hgroups, -⟩ := mem_passes hk₁
  obtain ⟨hgroups', skipped, hrest, hskipped⟩ := mem_passes hk₃
  have hk : k.groups = (2, k₁.rest.take (k₁.rest.length - k₃.rest.length)) :: k₃.groups := by
    rw [ways] at h
    split_ifs at h
    · rw [List.mem_singleton.mp h]
    · cases h
  refine ⟨_, by rw [hk, hgroups', hgroups], ?_⟩
  -- the text is what the dots passed over
  rw [hrest, List.length_append, Nat.add_sub_cancel, List.take_left]
  intro hmem
  exact absurd (hskipped _ hmem) (by decide)

/-- One line that does not begin with white space. -/
def PlainLine (message : String) : Prop :=
  '\n' ∉ message.toList ∧ ∀ c, message.toList.head? = some c → isWhiteSpace c = false

theorem logEntry_logLine_iff (ps : PowerShell) (ts : String) (level : Level) (message : String) :
    logEntry ps ts (logLine level message) = ⟨ts, level.text, message⟩ ↔ PlainLine message := by
  have hline : (logLine level message).toList =
      '[' :: level.text.toList ++ ']' :: ' ' :: message.toList := by
    simp [logLine]
  have hsearch := search_linePattern ps level message.toList
  rw [← hline] at hsearch
  -- one line gives its text without the white space before it
  have hone (hfeed : '\n' ∉ message.toList) : logEntry ps ts (logLine level message) =
      ⟨ts, level.text, String.ofList (message.toList.dropWhile isWhiteSpace)⟩ := by
    obtain ⟨k, hk, hgroups⟩ := exists_ways_textPattern [(1, level.text.toList)] hfeed
    have hlevel : matched 1 k = level.text := by
      rw [matched, hgroups]
      exact String.ofList_toList
    have htext : matched 2 k = String.ofList (message.toList.dropWhile isWhiteSpace) := by
      rw [matched, hgroups]
      rfl
    rw [logEntry, hsearch, hk]
    simp only [hlevel, htext]
  constructor
  · intro h
    have hfeed : '\n' ∉ message.toList := by
      rw [logEntry] at h
      split at h
      · next k hk =>
        rw [hsearch] at hk
        obtain ⟨text, hgroups, htext⟩ := mem_ways_textPattern (List.mem_of_head? hk)
        have hmessage : String.ofList text = message := by
          simpa [matched, hgroups] using congrArg LogEntry.message h
        rwa [← hmessage, String.toList_ofList]
      · -- the whole line is longer than its message
        have hlength := congrArg (fun e => e.message.toList.length) h
        rw [hline] at hlength
        simp only [List.length_append, List.length_cons] at hlength
        omega
    refine ⟨hfeed, fun c hc => ?_⟩
    have hmessage := congrArg LogEntry.message ((hone hfeed).symm.trans h)
    have hdrop : message.toList.dropWhile isWhiteSpace = message.toList := by
      simpa using congrArg String.toList hmessage
    obtain ⟨cs, hcs⟩ := List.head?_eq_some_iff.mp hc
    rw [hcs] at hdrop
    by_contra hwhite
    rw [Bool.not_eq_false] at hwhite
    -- a blank at the start would be gone
    rw [List.dropWhile_cons_of_pos hwhite] at hdrop
    have hle := (List.dropWhile_sublist (p := isWhiteSpace) (l := cs)).length_le
    rw [hdrop, List.length_cons] at hle
    omega
  · rintro ⟨hfeed, hhead⟩
    have hdrop : message.toList.dropWhile isWhiteSpace = message.toList := by
      cases hcs : message.toList with
      | nil => rfl
      | cons c cs =>
        rw [List.dropWhile_cons_of_neg]
        rw [hhead c (by rw [hcs]; rfl)]
        exact Bool.false_ne_true
    rw [hone hfeed, hdrop, String.ofList_toList]

/-- **Level and text survive the trip.** The lines of a batch are posted with the levels and the
messages they were logged with exactly if every message is one line that does not begin with white
space. -/
theorem sendZtpLog_logLine_iff (ps : PowerShell) (ts : String) (lines : List (Level × String)) :
    sendZtpLog ps ts (lines.map fun l => logLine l.1 l.2) =
        lines.map (fun l => ⟨ts, l.1.text, l.2⟩) ↔
      ∀ l ∈ lines, PlainLine l.2 := by
  rw [sendZtpLog, List.map_map, List.map_inj_left]
  exact forall₂_congr fun l _ => logEntry_logLine_iff ps ts l.1 l.2

/-- The second line of a message is lost to the level: the line is posted whole. -/
theorem sendZtpLog_two_lines :
    sendZtpLog .plain "" [logLine .error "DISM apply failed (exit 2).\nError: 2\nNot found."] ≠
      [⟨"", "ERROR", "DISM apply failed (exit 2).\nError: 2\nNot found."⟩] := by
  intro h
  have hlevel := congrArg (List.map LogEntry.level) h
  revert hlevel
  decide +kernel

end WinDep.Deploy
