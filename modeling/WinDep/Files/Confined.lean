/-
# Writes stay inside their category

A handler that writes touches the path its wildcard resolves to: the entry, its
two companions, what is below it, and the folders above. The companions lie
beside the entry, so they stay inside the category unless the entry is the
category root itself. The handlers refuse the empty wildcard, but a wildcard of
dots and slashes names the root as well and is accepted.
-/

import WinDep.Files.Handlers

namespace WinDep.Fs

open Admin Program

/-! ## What the handlers touch -/

variable {sha256 : Bytes → Digest} {P : Primitives} {masterKey : Option Key} {ivs : String → IV}
  {category rel : String} {dest : Path} {r : FileRequest} {body : Stream}

/-- An upload makes the folders above its entry and touches the entry and its companions. -/
def Uploads (dest : Path) (c : FsCall) : Prop :=
  c = .mkdirAll dest.dropLast ∨ Touching (Companion dest) c

theorem always_mkdirAll_dropLast : (mkdirAll dest.dropLast).Always (Uploads dest) :=
  always_perform.mpr (Or.inl rfl)

theorem always_uploads {α : Type} {m : Fs α} (h : m.Always (Touching (Companion dest))) :
    m.Always (Uploads dest) := h.imp fun _ => Or.inr

theorem always_record {sum : Digest} : (writeSidecar dest sum).Always (Uploads dest) :=
  always_uploads (always_writeSidecar (Or.inr (Or.inr rfl)))

/-- A whole stream is published in a folder that is made for it. -/
theorem always_publish :
    (do
      if ← mkdirAll dest.dropLast then
        match ← saveStream sha256 dest body with
        | none => return .error 500 "write failed"
        | some sum =>
          let _ ← writeSidecar dest sum
          return .send 201
      else return .error 500 "mkdir failed" : Fs Reply).Always (Uploads dest) := by
  apply always_bind always_mkdirAll_dropLast
  intro made
  split_ifs
  · apply always_bind (always_uploads (always_saveStream (Or.inl rfl) (Or.inr (Or.inl rfl))))
    intro saved
    cases saved with
    | none => exact always_pure _
    | some sum => exact always_bind always_record fun _ => always_pure _
  · exact always_pure _

theorem always_handleUpload (hdest : targetPath r = .ok dest) :
    (handleUpload sha256 r).Always (Uploads dest) := by
  rw [handleUpload, hdest]
  exact always_publish

theorem always_finishUpload {n : ℕ} :
    (finishUpload sha256 n (dest.withExt partExt) dest).Always (Uploads dest) := by
  apply always_bind (always_uploads (always_finalizePart (Or.inr (Or.inl rfl)) (Or.inl rfl)))
  intro sum
  cases sum with
  | none => exact always_pure _
  | some sum => exact always_bind always_record fun _ => always_pure _

theorem always_handleUploadResume {offset total : ℕ}
    (hdest : parseResume r = .ok (dest, offset, total)) :
    (handleUploadResume sha256 r).Always (Uploads dest) := by
  have hstat (p : Path) : (stat p).Always (Uploads dest) :=
    always_perform.mpr (Or.inr fun _ hq => hq.elim)
  rw [handleUploadResume, hdest]
  apply always_bind always_mkdirAll_dropLast
  intro made
  split_ifs
  · apply always_bind (hstat _)
    intro found
    dsimp only
    split_ifs
    · exact always_pure _
    · apply always_bind (always_uploads (always_appendStream (Or.inr (Or.inl rfl))))
      intro appended
      split_ifs
      · exact always_pure _
      · exact always_finishUpload
      · exact always_pure _
  · exact always_pure _

theorem always_handleConfigPut (hrel : ¬ (rel = "" ∨ rel.toList.getLast? = some '/'))
    (hdest : resolvePath "config" rel = some dest) :
    (handleConfigPut sha256 P masterKey ivs rel body).Always (Uploads dest) := by
  have hread : (readFile dest).Always (Uploads dest) :=
    always_perform.mpr (Or.inr fun _ hq => hq.elim)
  rw [handleConfigPut, if_neg hrel, hdest]
  dsimp only
  split
  · exact always_pure _
  apply always_bind hread
  intro prev
  split
  · exact always_pure _
  · exact always_publish

theorem always_handleMkdir (hrel : onlySlashes rel = false)
    (hdest : resolvePath category rel = some dest) :
    (handleMkdir category rel).Always (· = .mkdirAll dest) := by
  have hmkdirAll : (mkdirAll dest).Always (· = .mkdirAll dest) := always_perform.mpr rfl
  rw [handleMkdir, if_neg (by simp [hrel]), hdest]
  apply always_bind hmkdirAll
  intro made
  split_ifs <;> exact always_pure _

/-- Deleting touches the entry with all below it, and the companions. -/
def Deletes (dest : Path) : FsCall → Prop := Touching fun q => dest <+: q ∨ Companion dest q

theorem always_remove {p q : Path} (h : Companion p q) : (remove q).Always (Deletes p) :=
  always_perform.mpr fun _ hq => Or.inr (hq ▸ h)

theorem always_handleDelete (hrel : onlySlashes rel = false)
    (hdest : resolvePath category rel = some dest) :
    (handleDelete category rel).Always (Deletes dest) := by
  have hstat (p : Path) : (stat p).Always (Deletes dest) :=
    always_perform.mpr fun q hq => hq.elim
  have hremoveAll : (removeAll dest).Always (Deletes dest) :=
    always_perform.mpr fun q hq => Or.inl hq
  have hsidecar := always_remove (p := dest) (Or.inr (Or.inr rfl))
  have hpart := always_remove (p := dest) (Or.inr (Or.inl rfl))
  rw [handleDelete, if_neg (by simp [hrel]), hdest]
  apply always_bind (hstat dest)
  intro found
  cases found with
  | missing =>
    -- a staging file without its file can still be discarded
    apply always_bind (hstat _)
    intro staged
    cases staged with
    | file | folder => exact always_bind hpart fun _ => always_pure _
    | missing | failed => exact always_pure _
  | failed => exact always_pure _
  | file | folder =>
    apply always_bind hremoveAll
    intro removed
    split_ifs
    · exact always_bind hsidecar fun _ => always_bind hpart fun _ => always_pure _
    · exact always_pure _

/-! ## Inside the category -/

/-- The entry lies strictly below the category. -/
def Below (category : String) (q : Path) : Prop := ∃ s t, q = category :: s :: t

/-- Every entry the call can change lies strictly below the category, but for the category root
among the folders it makes. -/
def Inside (category : String) (c : FsCall) : Prop :=
  ∀ q, c.Touches q → Below category q ∨ q = [category] ∧ ∃ p, c = .mkdirAll p

variable {p q : Path} {c : FsCall}

theorem below_withExt (hp : p ≠ []) (ext : String) :
    Below category (Path.withExt (category :: p) ext) := by
  obtain ⟨s, t, rfl⟩ := List.exists_cons_of_ne_nil hp
  cases t with
  | nil => exact ⟨_, [], rfl⟩
  | cons s' t =>
    exact ⟨s, (s' :: t).dropLast ++ [Path.base (category :: s :: s' :: t) ++ ext],
      by simp [Path.withExt]⟩

theorem below_companion (hp : p ≠ []) (h : Companion (category :: p) q) : Below category q := by
  rcases h with rfl | rfl | rfl
  · obtain ⟨s, t, rfl⟩ := List.exists_cons_of_ne_nil hp
    exact ⟨s, t, rfl⟩
  · exact below_withExt hp _
  · exact below_withExt hp _

theorem below_extends (hp : p ≠ []) (h : category :: p <+: q) : Below category q := by
  obtain ⟨s, t, rfl⟩ := List.exists_cons_of_ne_nil hp
  obtain ⟨u, rfl⟩ := h
  exact ⟨s, t ++ u, rfl⟩

/-- The folders above an entry of the category are the root and folders below it. -/
theorem inside_mkdirAll (h : p <+: category :: q) : Inside category (.mkdirAll p) := by
  rintro q' ⟨hne, hq'⟩
  obtain ⟨u, hu⟩ := hq'.trans h
  match q' with
  | [] => exact absurd rfl hne
  -- the category root is made if it is missing
  | [s] =>
    obtain ⟨rfl, -⟩ := List.cons.inj hu
    exact Or.inr ⟨rfl, _, rfl⟩
  | s :: s' :: t =>
    obtain ⟨rfl, -⟩ := List.cons.inj hu
    exact Or.inl ⟨s', t, rfl⟩

theorem inside_of_uploads (hp : p ≠ []) (h : Uploads (category :: p) c) : Inside category c := by
  rcases h with rfl | h
  · exact inside_mkdirAll (List.dropLast_prefix _)
  · exact fun q hq => Or.inl (below_companion hp (h q hq))

theorem inside_of_deletes (hp : p ≠ []) (h : Deletes (category :: p) c) : Inside category c := by
  intro q hq
  rcases h q hq with hq | hq
  · exact Or.inl (below_extends hp hq)
  · exact Or.inl (below_companion hp hq)

/-! ## The requests that write -/

inductive Writer
  | upload
  | resume
  | mkdir
  | delete
  | configPut
  deriving DecidableEq

namespace Writer

/-- The category a request works in. The config editor has one of its own. -/
def categoryOf : Writer → String → String
  | configPut, _ => "config"
  | _, param => param

def program (w : Writer) (sha256 : Bytes → Digest) (P : Primitives) (masterKey : Option Key)
    (ivs : String → IV) (r : FileRequest) : Fs Reply :=
  match w with
  | upload => handleUpload sha256 r
  | resume => handleUploadResume sha256 r
  | mkdir => handleMkdir r.category r.rel
  | delete => handleDelete r.category r.rel
  | configPut => handleConfigPut sha256 P masterKey ivs r.rel r.body

/-- The category is known, and the wildcard passes the handler's check. -/
def Accepts (w : Writer) (param rel : String) : Prop :=
  w.categoryOf param ∈ categories ∧
    match w with
    | mkdir | delete => onlySlashes rel = false
    | _ => ¬ (rel = "" ∨ rel.toList.getLast? = some '/')

/-- Whatever else the request carries and whatever the calls are answered, it stays inside. -/
def Confined (w : Writer) (param rel : String) : Prop :=
  ∀ (sha256 : Bytes → Digest) (P : Primitives) (masterKey : Option Key) (ivs : String → IV)
    (uploadLength uploadOffset : List Char) (body : Stream),
    (w.program sha256 P masterKey ivs ⟨param, rel, uploadLength, uploadOffset, body⟩).Always
      (Inside (w.categoryOf param))

end Writer

open Writer

variable {w : Writer} {param : String}

theorem resolvePath_of_mem (rel : String) (h : category ∈ categories) :
    resolvePath category rel = some (category :: Path.join [] rel) := if_pos h

theorem resolvePath_refused (h : ¬ (category ∈ categories ∧ onlySlashes rel = false))
    (hrel : ¬ onlySlashes rel = true) : resolvePath category rel = none :=
  if_neg fun hcat => h ⟨hcat, Bool.eq_false_iff.mpr hrel⟩

theorem targetPath_eq (hcat : r.category ∈ categories)
    (hrel : ¬ (r.rel = "" ∨ r.rel.toList.getLast? = some '/')) :
    targetPath r = .ok (r.category :: Path.join [] r.rel) := by
  rw [targetPath, if_neg hrel, resolvePath_of_mem r.rel hcat]

theorem targetPath_of_parseResume {offset total : ℕ}
    (h : parseResume r = .ok (dest, offset, total)) : targetPath r = .ok dest := by
  simp only [parseResume, bind_eq_ok] at h
  obtain ⟨dest', hdest, length, -, parsed, -, hparsed⟩ := h
  cases hparsed
  exact hdest

theorem targetPath_error (h : ¬ (r.category ∈ categories ∧
    ¬ (r.rel = "" ∨ r.rel.toList.getLast? = some '/'))) :
    ∃ message, targetPath r = .error (.error 400 message) := by
  unfold targetPath resolvePath
  split_ifs with hrel hcat
  · exact ⟨_, rfl⟩
  · exact absurd ⟨hcat, hrel⟩ h
  · exact ⟨_, rfl⟩

/-- What is not accepted is answered before any call is made. -/
theorem program_refused (hacc : ¬ w.Accepts r.category r.rel) (sha256 : Bytes → Digest)
    (P : Primitives) (masterKey : Option Key) (ivs : String → IV) :
    ∃ message, w.program sha256 P masterKey ivs r = pure (.error 400 message) := by
  cases w with
  | upload =>
    obtain ⟨message, hreply⟩ := targetPath_error hacc
    exact ⟨message, by rw [Writer.program, handleUpload, hreply]⟩
  | resume =>
    obtain ⟨message, hreply⟩ := targetPath_error hacc
    exact ⟨message, by rw [Writer.program, handleUploadResume, parseResume, hreply]; rfl⟩
  | mkdir =>
    rw [Writer.program, handleMkdir]
    split_ifs with hrel
    · exact ⟨_, rfl⟩
    · have hnone : resolvePath r.category r.rel = none := resolvePath_refused hacc hrel
      rw [hnone]
      exact ⟨_, rfl⟩
  | delete =>
    rw [Writer.program, handleDelete]
    split_ifs with hrel
    · exact ⟨_, rfl⟩
    · have hnone : resolvePath r.category r.rel = none := resolvePath_refused hacc hrel
      rw [hnone]
      exact ⟨_, rfl⟩
  | configPut =>
    have hrel : r.rel = "" ∨ r.rel.toList.getLast? = some '/' := by
      by_contra hrel
      exact hacc ⟨show "config" ∈ categories by decide, hrel⟩
    rw [Writer.program, handleConfigPut, if_pos hrel]
    exact ⟨_, rfl⟩

theorem confined_of_named (hacc : w.Accepts param rel) (hp : Path.join [] rel ≠ []) :
    w.Confined param rel := by
  intro sha256 P masterKey ivs uploadLength uploadOffset body
  obtain ⟨hcat, hrel⟩ := hacc
  have hpath := resolvePath_of_mem rel hcat
  cases w with
  | upload =>
    have hdest := targetPath_eq (r := ⟨param, rel, uploadLength, uploadOffset, body⟩) hcat hrel
    exact (always_handleUpload hdest).imp fun c => inside_of_uploads hp
  | resume =>
    cases hparse : parseResume ⟨param, rel, uploadLength, uploadOffset, body⟩ with
    | error reply =>
      rw [Writer.program, handleUploadResume, hparse]
      exact always_pure _
    | ok parsed =>
      obtain ⟨dest, offset, total⟩ := parsed
      have hdest := targetPath_of_parseResume hparse
      rw [targetPath_eq hcat hrel, Except.ok.injEq] at hdest
      subst hdest
      exact (always_handleUploadResume hparse).imp fun c => inside_of_uploads hp
  | mkdir =>
    apply (always_handleMkdir hrel hpath).imp
    rintro c rfl
    exact inside_mkdirAll List.prefix_rfl
  | delete => exact (always_handleDelete hrel hpath).imp fun c => inside_of_deletes hp
  | configPut => exact (always_handleConfigPut hrel hpath).imp fun c => inside_of_uploads hp

/-! ## The category root -/

/-- The staging file of the root lies outside, next to it. -/
theorem not_inside_openFile {truncate : Bool} :
    ¬ Inside category (.openFile (Path.withExt [category] partExt) truncate) := by
  intro h
  rcases h _ rfl with ⟨s, t, hq⟩ | ⟨-, p, hp⟩
  · simp [Path.withExt] at hq
  · cases hp

theorem not_inside_removeAll : ¬ Inside category (.removeAll [category]) := by
  intro h
  rcases h [category] List.prefix_rfl with ⟨s, t, hq⟩ | ⟨-, p, hp⟩
  · simp at hq
  · cases hp

theorem not_always_saveStream :
    ¬ (saveStream sha256 [category] body).Always (Inside category) := by
  intro h
  rw [saveStream] at h
  exact not_inside_openFile h.1

/-- A wildcard that resolves to the root gets an upload, a delete or a config write outside. -/
theorem not_confined_of_root (hacc : w.Accepts param rel) (hw : w ≠ .mkdir)
    (hroot : Path.join [] rel = []) : ¬ w.Confined param rel := by
  intro h
  obtain ⟨hcat, hrel⟩ := hacc
  have hpath := resolvePath_of_mem rel hcat
  rw [hroot] at hpath
  -- each handler comes, with the right answers, to a call on the root's own sidecars or on the root
  cases w with
  | upload =>
    have hprog := h sampleDigest default none sampleIVs [] [] []
    have hdest := targetPath_eq (r := ⟨param, rel, [], [], []⟩) hcat hrel
    simp only [hroot] at hdest
    rw [Writer.program, handleUpload, hdest] at hprog
    have hsaved := (always_perform_bind.mp hprog).2 true
    rw [if_pos rfl] at hsaved
    exact not_always_saveStream hsaved.of_bind
  | resume =>
    have hprog := h sampleDigest default none sampleIVs (Nat.toDigits 10 1) (Nat.toDigits 10 0) []
    have hdest := targetPath_eq
      (r := ⟨param, rel, Nat.toDigits 10 1, Nat.toDigits 10 0, []⟩) hcat hrel
    simp only [hroot] at hdest
    have hparse : parseResume ⟨param, rel, Nat.toDigits 10 1, Nat.toDigits 10 0, []⟩ =
        .ok ([param], 0, 1) := by
      rw [parseResume, hdest]
      simp only [parseHeader_toDigits _ (show 1 < 2 ^ 63 by decide),
        parseHeader_toDigits _ (show 0 < 2 ^ 63 by decide)]
      rfl
    rw [Writer.program, handleUploadResume, hparse] at hprog
    have hstat := (always_perform_bind.mp hprog).2 true
    rw [if_pos rfl] at hstat
    have happended := (always_perform_bind.mp hstat).2 .missing
    rw [if_neg (by simp [StatResult.size])] at happended
    exact not_inside_openFile happended.of_bind.1
  | mkdir => exact hw rfl
  | delete =>
    have hprog := h sampleDigest default none sampleIVs [] [] []
    have hslashes : onlySlashes rel = false := hrel
    have hdest : resolvePath param rel = some [param] := hpath
    rw [Writer.program, handleDelete, if_neg (by simp [hslashes]), hdest] at hprog
    have hremoved := (always_perform_bind.mp hprog).2 (.folder 0)
    exact not_inside_removeAll (always_perform_bind.mp hremoved).1
  | configPut =>
    have hprog := h sampleDigest default none sampleIVs [] [] (.ofBytes (marshalIndent none))
    have hbody : readBody (.ofBytes (marshalIndent none)) maxBody = some (marshalIndent none) := by
      decide +kernel
    have hout :
        ∃ out, encryptConfigJSON default none sampleIVs (marshalIndent none) [] = some out :=
      ⟨_, encryptConfigJSON_eq_some.mpr
        ⟨none, by rw [trimBOM_marshalIndent, unmarshal_marshalIndent (Nat.zero_le _)], rfl⟩⟩
    obtain ⟨out, hout⟩ := hout
    have hdest : resolvePath "config" rel = some ["config"] := hpath
    rw [Writer.program, handleConfigPut, if_neg hrel, hdest] at hprog
    simp only [hbody] at hprog
    have hread := (always_perform_bind.mp hprog).2 none
    rw [Option.getD_none, hout] at hread
    have hsaved := (always_perform_bind.mp hread).2 true
    rw [if_pos rfl] at hsaved
    exact not_always_saveStream hsaved.of_bind

/-- **Writes stay inside.** A wildcard that a handler accepts is confined to its category, whatever
the calls are answered, exactly when it names something below the category root. Making the root
itself is no harm. -/
theorem confined_iff (w : Writer) (param rel : String) (hacc : w.Accepts param rel) :
    w.Confined param rel ↔ w = .mkdir ∨ Path.join [] rel ≠ [] := by
  constructor
  · intro h
    by_contra hnot
    obtain ⟨hw, hroot⟩ := not_or.mp hnot
    exact not_confined_of_root hacc hw (not_not.mp hroot) h
  · rintro (rfl | hp)
    · intro sha256 P masterKey ivs uploadLength uploadOffset body
      apply (always_handleMkdir hacc.2 (resolvePath_of_mem rel hacc.1)).imp
      rintro c rfl
      exact inside_mkdirAll List.prefix_rfl
    · exact confined_of_named hacc hp

theorem confined_wim : Writer.Confined .delete "images" "win11/install.wim" ↔
    Writer.delete = .mkdir ∨ Path.join [] "win11/install.wim" ≠ [] :=
  confined_iff .delete "images" "win11/install.wim" ⟨by decide, by decide⟩

/-- A single dot is accepted, and deletes the whole category. -/
theorem dot_deletes_category :
    ¬ ∀ (w : Writer) (param rel : String), w.Accepts param rel → w.Confined param rel := by
  intro h
  have hprog := h .delete "images" "." ⟨by decide, by decide⟩
    sampleDigest default none sampleIVs [] [] []
  have hdest : resolvePath "images" "." = some ["images"] := by decide
  rw [Writer.program, handleDelete, if_neg (by decide), hdest] at hprog
  have hremoved := (always_perform_bind.mp hprog).2 (.folder 0)
  exact not_inside_removeAll (always_perform_bind.mp hremoved).1

end WinDep.Fs
