/-
# Segments of a URL path

Encoding a component keeps the characters that may stand in any component and
writes the others byte by byte. A URL whose path has dot segments is resolved
before it is sent; an encoded component is a dot segment only if it was one.
-/

import WinDep.Data.Utf8

namespace WinDep.Uri

/-- A character that encoding keeps. -/
def Unreserved (c : Char) : Prop :=
  c.isAlphanum = true ∨ c ∈ ['-', '_', '.', '!', '~', '*', '\x27', '(', ')']

instance (c : Char) : Decidable (Unreserved c) := inferInstanceAs (Decidable (_ ∨ _))

def hexDigit (n : ℕ) : Char := (Nat.digitChar n).toUpper

def encodeByte (b : UInt8) : List Char := ['%', hexDigit (b.toNat / 16), hexDigit (b.toNat % 16)]

def encodeChar (c : Char) : List Char :=
  if Unreserved c then [c] else (String.utf8EncodeChar c).flatMap encodeByte

def encode (cs : List Char) : List Char := cs.flatMap encodeChar

def encodeURIComponent (s : String) : String := String.ofList (encode s.toList)

/-! ## What encoding keeps -/

variable {c : Char} {cs post : List Char} {s : String}

@[simp] theorem encode_nil : encode [] = [] := rfl

theorem encode_cons : encode (c :: cs) = encodeChar c ++ encode cs := List.flatMap_cons

theorem encodeChar_of_unreserved (h : Unreserved c) : encodeChar c = [c] := if_pos h

/-- What is not kept begins with the code of its first byte. -/
theorem encodeChar_of_not_unreserved (h : ¬ Unreserved c) : ∃ b bs,
    String.utf8EncodeChar c = b :: bs ∧ encodeChar c = encodeByte b ++ bs.flatMap encodeByte := by
  obtain ⟨b, bs, hbs⟩ := List.exists_cons_of_ne_nil (String.utf8EncodeChar_ne_nil (c := c))
  exact ⟨b, bs, hbs, by rw [encodeChar, if_neg h, hbs, List.flatMap_cons]⟩

theorem one_le_length_encodeChar (c : Char) : 1 ≤ (encodeChar c).length := by
  by_cases h : Unreserved c
  · simp [encodeChar_of_unreserved h]
  · obtain ⟨b, bs, -, hc⟩ := encodeChar_of_not_unreserved h
    simp [hc, encodeByte]

theorem length_le_encode (cs : List Char) : cs.length ≤ (encode cs).length := by
  induction cs with
  | nil => exact Nat.le_refl _
  | cons c cs ih =>
    have hc := one_le_length_encodeChar c
    rw [encode_cons, List.length_append, List.length_cons]
    omega

/-- Encoding changes nothing exactly when every character may stay. -/
theorem encode_eq_self_iff : encode cs = cs ↔ ∀ c ∈ cs, Unreserved c := by
  induction cs with
  | nil => simp
  | cons c cs ih =>
    by_cases h : Unreserved c
    · rw [encode_cons, encodeChar_of_unreserved h]
      simp [ih, h]
    · constructor
      · intro heq
        obtain ⟨b, bs, -, hc⟩ := encodeChar_of_not_unreserved h
        have hlen := congrArg List.length heq
        have hle := length_le_encode cs
        rw [encode_cons, hc] at hlen
        simp [encodeByte] at hlen
        omega
      · intro hall
        exact absurd (hall c List.mem_cons_self) h

theorem encodeURIComponent_eq_self_iff :
    encodeURIComponent s = s ↔ ∀ c ∈ s.toList, Unreserved c := by
  rw [encodeURIComponent, ← encode_eq_self_iff]
  constructor
  · intro h
    have hlist := congrArg String.toList h
    rwa [String.toList_ofList] at hlist
  · intro h
    rw [h, String.ofList_toList]

theorem hexDigit_ne_slash : ∀ n < 16, hexDigit n ≠ '/' := by decide

theorem slash_not_mem_encode (cs : List Char) : '/' ∉ encode cs := by
  intro hmem
  obtain ⟨c, -, hc⟩ := List.mem_flatMap.mp hmem
  unfold encodeChar at hc
  split_ifs at hc with h
  · obtain rfl := List.mem_singleton.mp hc
    exact absurd h (by decide)
  · obtain ⟨b, -, hb⟩ := List.mem_flatMap.mp hc
    have hlt : b.toNat < 256 := b.toNat_lt
    simp only [encodeByte, List.mem_cons, List.not_mem_nil, or_false] at hb
    rcases hb with hb | hb | hb
    · exact absurd hb (by decide)
    · exact hexDigit_ne_slash _ (by omega) hb.symm
    · exact hexDigit_ne_slash _ (by omega) hb.symm

theorem encode_eq_nil_iff : encode cs = [] ↔ cs = [] := by
  constructor
  · intro h
    have hle := length_le_encode cs
    rw [h, List.length_nil] at hle
    exact List.length_eq_zero_iff.mp (by omega)
  · rintro rfl
    rfl

/-! ## Dot segments -/

/-- A dot, as it is or encoded. -/
def dots : List (List Char) := [['.'], ['%', '2', 'e'], ['%', '2', 'E']]

def singleDot (seg : String) : Bool := seg.toList ∈ dots

def doubleDot (seg : String) : Bool := seg.toList ∈ dots.flatMap fun a => dots.map (a ++ ·)

/-- Resolve the dot segments of a path. A dot segment at its end leaves an empty segment. -/
def resolveDots : List String → List String → List String
  | [], done => done
  | [seg], done =>
    if doubleDot seg then done.dropLast ++ [""]
    else if singleDot seg then done ++ [""]
    else done ++ [seg]
  | seg :: segs, done =>
    resolveDots segs
      (if doubleDot seg then done.dropLast else if singleDot seg then done else done ++ [seg])

theorem hexDigit_eq_two : ∀ n < 16, hexDigit n = '2' → n = 2 := by decide

theorem hexDigit_eq_fourteen : ∀ n < 16, hexDigit n = 'e' ∨ hexDigit n = 'E' → n = 14 := by decide

/-- The character whose encoding begins as that of a dot is the dot. -/
theorem eq_dot_of_utf8 {b : UInt8} {bs : Bytes} (h : String.utf8EncodeChar c = b :: bs)
    (hb : b.toNat = 46) : c = '.' := by
  have hdot : String.utf8EncodeChar '.' = [46] := by decide
  obtain rfl : b = 46 := UInt8.toNat_inj.mp hb
  have hc := Utf8.decode_encodeChar_append c []
  have hd := Utf8.decode_encodeChar_append '.' bs
  rw [h, List.append_nil] at hc
  rw [hdot, List.singleton_append, hc] at hd
  exact (List.cons.inj hd).1

/-- What encodes to a dot and something more is a dot and something more. -/
theorem eq_dot_of_encode {a : List Char} (ha : a ∈ dots) (h : encode cs = a ++ post) :
    a = ['.'] ∧ ∃ rest, cs = '.' :: rest ∧ encode rest = post := by
  cases cs with
  | nil =>
    have hnil := List.append_eq_nil_iff.mp h.symm
    rw [hnil.1] at ha
    exact absurd ha (by decide)
  | cons c rest =>
    rw [encode_cons] at h
    simp only [dots, List.mem_cons, List.not_mem_nil, or_false] at ha
    by_cases hc : Unreserved c
    · rw [encodeChar_of_unreserved hc, List.singleton_append] at h
      rcases ha with rfl | rfl | rfl
      · obtain ⟨rfl, hrest⟩ := List.cons.inj h
        exact ⟨rfl, rest, rfl, hrest⟩
      · obtain ⟨rfl, -⟩ := List.cons.inj h
        exact absurd hc (by decide)
      · obtain ⟨rfl, -⟩ := List.cons.inj h
        exact absurd hc (by decide)
    · -- the code of a byte is that of a dot for the dot only, which is kept
      obtain ⟨b, bs, hbs, hcode⟩ := encodeChar_of_not_unreserved hc
      have hlt : b.toNat < 256 := b.toNat_lt
      rw [hcode, encodeByte] at h
      have hdot : b.toNat = 46 := by
        rcases ha with rfl | rfl | rfl
        · simp at h
        all_goals
          simp only [List.cons_append, List.cons.injEq] at h
          have htwo := hexDigit_eq_two _ (by omega) h.2.1
          have hfourteen := hexDigit_eq_fourteen (b.toNat % 16) (by omega) (by simp [h.2.2.1])
          omega
      obtain rfl := eq_dot_of_utf8 hbs hdot
      exact absurd (show Unreserved '.' by decide) hc

theorem singleDot_encode : singleDot (encodeURIComponent s) = true ↔ s = "." := by
  rw [singleDot, encodeURIComponent, String.toList_ofList, decide_eq_true_eq]
  constructor
  · intro h
    obtain ⟨-, rest, hrest, hnil⟩ := eq_dot_of_encode h (List.append_nil _).symm
    rw [encode_eq_nil_iff.mp hnil] at hrest
    exact String.toList_inj.mp hrest
  · rintro rfl
    decide

theorem doubleDot_encode : doubleDot (encodeURIComponent s) = true ↔ s = ".." := by
  rw [doubleDot, encodeURIComponent, String.toList_ofList, decide_eq_true_eq]
  constructor
  · intro h
    obtain ⟨a, ha, hmem⟩ := List.mem_flatMap.mp h
    obtain ⟨a', ha', heq⟩ := List.mem_map.mp hmem
    obtain ⟨-, rest, hrest, hsecond⟩ := eq_dot_of_encode ha heq.symm
    obtain ⟨-, rest', hrest', hnil⟩ := eq_dot_of_encode ha' (hsecond.trans (List.append_nil _).symm)
    rw [hrest', encode_eq_nil_iff.mp hnil] at hrest
    exact String.toList_inj.mp hrest
  · rintro rfl
    decide

end WinDep.Uri
