/-
# The file browser

The page of the files shows one folder of a category and sends requests without
waiting: listings, and operations of a button, each of which goes on with the
folder it was begun in and ends with a listing of it. Answers come in any order,
and the rows shown are those of the listing that came last. While the folder is
changed only at rest, and the category only at its top, the rows are those of the
folder that requests go to.
-/

import WinDep.Data.Runs
import WinDep.Editor.Form
import WinDep.Files.Urls

namespace WinDep.FilesTab

open Fs Runs Urls

/-- Where the page is: a category, and the folder in it. -/
structure Place where
  category : String
  folder : String
  deriving DecidableEq

inductive Request
  | list (place : Place)
  | delete (place : Place) (name : String)
  | upload (place : Place) (name : String)
  | mkdir (place : Place) (name : String)
  deriving DecidableEq

/-- An activity that waits for an answer, with the place it was begun in. -/
inductive Task
  /-- `refresh`, at the end of an operation of a button or not -/
  | refresh (place : Place) (ending : Bool)
  /-- the entries left to delete, the first of which is asked for -/
  | delete (place : Place) (rest : List FileInfo)
  | upload (place : Place) (rest : List String)
  | mkdir (place : Place)

structure Page where
  place : Place
  items : List FileInfo
  selected : List FileInfo
  /-- the files chosen for upload -/
  upload : List String
  newFolder : Option String
  loading : Bool
  busy : Bool
  error : Bool
  tasks : List Task
  /-- the requests that were sent -/
  sent : List Request
  /-- the listings that have ended, with their rows if they succeeded -/
  listings : List (Place × Option (List FileInfo))

/-- The end of a request: a success with the rows of its body, or a failure of any kind. -/
inductive Answer
  | ok (rows : List FileInfo)
  | failed

/-- What the user does, and the answers to requests. -/
inductive Event
  | chooseCategory (category : String)
  /-- the link of a folder's row -/
  | open (name : String)
  /-- a breadcrumb, by the number of folders it keeps -/
  | crumb (kept : ℕ)
  | select (names : List String)
  | refresh
  | delete
  | chooseFiles (names : List String)
  | upload
  | typeFolder (name : Option String)
  | create
  | dismiss
  | answered (i : ℕ) (a : Answer)

namespace Page

/-- Ask for the rows of a place. -/
def refresh (p : Page) (place : Place) (ending : Bool) : Page :=
  { p with
    loading := true, error := false
    tasks := p.tasks ++ [.refresh place ending]
    sent := p.sent ++ [.list place] }

/-- The page when it is opened. -/
def opened : Page :=
  refresh ⟨⟨"images", ""⟩, [], [], [], none, false, false, false, [], [], []⟩ ⟨"images", ""⟩ false

/-- A change of the place lists it. -/
def moveTo (p : Page) (place : Place) : Page := { p with place }.refresh place false

def goTo (p : Page) (folder : String) : Page :=
  if folder = p.place.folder then p else p.moveTo ⟨p.place.category, folder⟩

/-- Change the category. The folder is listed there before it is reset. -/
def chooseCategory (p : Page) (category : String) : Page :=
  if category = p.place.category then p else (p.moveTo ⟨category, p.place.folder⟩).goTo ""

/-- Begin the operation of a button. -/
def begin (p : Page) (task : Task) (request : Request) : Page :=
  { p with busy := true, error := false, tasks := p.tasks ++ [task], sent := p.sent ++ [request] }

def doDelete (p : Page) : Page :=
  match p.selected with
  | [] => p
  | e :: rest =>
    if p.busy then p else p.begin (.delete p.place (e :: rest)) (.delete p.place e.name)

def doUpload (p : Page) : Page :=
  match p.upload with
  | [] => p
  | name :: rest =>
    if p.busy then p else p.begin (.upload p.place (name :: rest)) (.upload p.place name)

def doCreateFolder (p : Page) : Page :=
  let name := Editor.trimString (p.newFolder.getD "")
  if name = "" || p.busy then p else p.begin (.mkdir p.place) (.mkdir p.place name)

/-- An operation fails without a listing. -/
def fail (p : Page) (i : ℕ) : Page :=
  { p with busy := false, error := true, tasks := p.tasks.eraseIdx i }

/-- An operation ends with a listing of its place. -/
def finish (p : Page) (i : ℕ) (place : Place) : Page :=
  { p with tasks := p.tasks.eraseIdx i }.refresh place true

variable (le : String → String → Bool)

/-- Folders first, then by name. -/
def sortRows (rows : List FileInfo) : List FileInfo :=
  rows.mergeSort fun a b => if a.isDir = b.isDir then le a.name b.name else a.isDir

/-- A listing has ended. -/
def listed (p : Page) (i : ℕ) (place : Place) (ending : Bool) (a : Answer) : Page :=
  let p := { p with
    loading := false, busy := !ending && p.busy
    tasks := p.tasks.eraseIdx i }
  match a with
  | .ok rows => { p with
      items := sortRows le rows, selected := []
      listings := p.listings ++ [(place, some rows)] }
  | .failed => { p with error := true, listings := p.listings ++ [(place, none)] }

/-- The activity that was waiting goes on. -/
def answered (p : Page) (i : ℕ) (a : Answer) : Page :=
  match p.tasks[i]?, a with
  | none, _ => p
  | some (.refresh place ending), a => p.listed le i place ending a
  | some _, .failed => p.fail i
  | some (.delete place (_ :: e :: rest)), .ok _ =>
    { p with
      tasks := p.tasks.set i (.delete place (e :: rest))
      sent := p.sent ++ [.delete place e.name] }
  | some (.delete place _), .ok _ => p.finish i place
  | some (.upload place (_ :: name :: rest)), .ok _ =>
    { p with
      tasks := p.tasks.set i (.upload place (name :: rest))
      sent := p.sent ++ [.upload place name] }
  | some (.upload place _), .ok _ => { p with upload := [] }.finish i place
  | some (.mkdir place), .ok _ => { p with newFolder := none }.finish i place

def step (p : Page) : Event → Page
  | .chooseCategory category => p.chooseCategory category
  | .open name =>
    if p.items.any fun e => e.isDir && e.name = name then p.goTo (under p.place.folder name) else p
  | .crumb kept =>
    p.goTo (slashed (((Path.segments p.place.folder).filter (· ≠ "")).take kept))
  | .select names => { p with selected := p.items.filter (names.contains ·.name) }
  | .refresh => if p.loading then p else p.refresh p.place false
  | .delete => p.doDelete
  | .chooseFiles names => { p with upload := names }
  | .upload => p.doUpload
  | .typeFolder name => { p with newFolder := name }
  | .create => p.doCreateFolder
  | .dismiss => { p with error := false }
  | .answered i a => p.answered le i a

/-- The last listing to end succeeded. -/
def LastListed (p : Page) : Prop := ∃ place rows, p.listings.getLast? = some (place, some rows)

/-- The user changes the folder only at rest and the category only at its top as well, and deletes
only at rest and after a listing that succeeded. -/
def Calm (p : Page) : Event → Prop
  | .chooseCategory category =>
    category = p.place.category ∨ p.tasks = [] ∧ p.place.folder = ""
  | .open _ | .crumb _ => p.tasks = []
  | .delete => p.tasks = [] ∧ p.LastListed
  | _ => True

end Page

/-! ## What is shown -/

def Task.place : Task → Place
  | refresh place _ | delete place _ | upload place _ | mkdir place => place

def Task.IsRefresh (task : Task) : Prop := ∃ place ending, task = refresh place ending

namespace Page

variable {le : String → String → Bool} {p : Page} {place : Place} {folder category : String}
  {i : ℕ} {a : Answer} {e : Event} {task task' : Task} {request : Request} {ending : Bool}

/-- Every activity is in the place of the page. While no listing is waited for, the rows are those
of the place, if the last listing succeeded. -/
structure Inv (p : Page) : Prop where
  here : ∀ task ∈ p.tasks, task.place = p.place
  shown : (∀ task ∈ p.tasks, ¬ task.IsRefresh) → ∀ place rows,
    p.listings.getLast? = some (place, some rows) → place = p.place ∧ ∀ e ∈ p.items, e ∈ rows
  selected : ∀ e ∈ p.selected, e ∈ p.items

theorem inv_opened : Inv opened where
  here task h := by
    obtain rfl := List.mem_singleton.mp h
    rfl
  shown h := absurd ⟨_, _, rfl⟩ (h _ (List.mem_singleton_self _))
  selected _ h := absurd h List.not_mem_nil

/-- An activity that is replaced or has ended leaves the listings that are waited for. -/
theorem refresh_mem_set {tasks : List Task} (hi : tasks[i]? = some task) (htask : ¬ task.IsRefresh)
    {t : Task} (ht : t.IsRefresh) (h : t ∈ tasks) :
    t ∈ tasks.set i task' ∧ t ∈ tasks.eraseIdx i := by
  obtain ⟨j, hj⟩ := List.mem_iff_getElem?.mp h
  have hne : j ≠ i := by
    rintro rfl
    rw [hj] at hi
    exact htask (Option.some.inj hi ▸ ht)
  exact ⟨List.mem_iff_getElem?.mpr ⟨j, by rw [List.getElem?_set_ne hne.symm, hj]⟩,
    List.mem_eraseIdx_iff_getElem?.mpr ⟨j, hne, hj⟩⟩

theorem Inv.refresh (h : Inv p) : Inv (p.refresh p.place ending) where
  here task ht := by
    rcases List.mem_append.mp ht with hold | hnew
    · exact h.here task hold
    · obtain rfl := List.mem_singleton.mp hnew
      rfl
  shown hnone := absurd ⟨_, _, rfl⟩ (hnone _ (List.mem_append_right _ (List.mem_singleton_self _)))
  selected := h.selected

theorem Inv.moveTo (h : Inv p) (hrest : p.tasks = []) : Inv (p.moveTo place) where
  here task ht := by
    have htask : task ∈ [Task.refresh place false] := by
      simpa [Page.moveTo, Page.refresh, hrest] using ht
    obtain rfl := List.mem_singleton.mp htask
    rfl
  shown hnone := absurd ⟨_, _, rfl⟩ (hnone _ (List.mem_append_right _ (List.mem_singleton_self _)))
  selected := h.selected

theorem Inv.goTo (h : Inv p) (hrest : p.tasks = []) : Inv (p.goTo folder) := by
  unfold Page.goTo
  split_ifs
  · exact h
  · exact h.moveTo hrest

theorem Inv.chooseCategory (h : Inv p)
    (hcalm : category = p.place.category ∨ p.tasks = [] ∧ p.place.folder = "") :
    Inv (p.chooseCategory category) := by
  unfold Page.chooseCategory
  split_ifs with hsame
  · exact h
  · obtain ⟨hrest, htop⟩ := hcalm.resolve_left hsame
    -- the folder is reset to what it is
    have htop' : "" = (p.moveTo ⟨category, p.place.folder⟩).place.folder := htop.symm
    rw [Page.goTo, if_pos htop']
    exact h.moveTo hrest

theorem Inv.begin (h : Inv p) (hplace : task.place = p.place) : Inv (p.begin task request) where
  here t ht := by
    rcases List.mem_append.mp ht with hold | hnew
    · exact h.here t hold
    · exact List.mem_singleton.mp hnew ▸ hplace
  shown hnone := h.shown fun t ht => hnone t (List.mem_append_left _ ht)
  selected := h.selected

theorem Inv.fail (h : Inv p) (hi : p.tasks[i]? = some task) (htask : ¬ task.IsRefresh) :
    Inv (p.fail i) where
  here t ht := h.here t (List.mem_of_mem_eraseIdx ht)
  shown hnone := h.shown fun t ht hrefresh =>
    hnone t (@refresh_mem_set i task task _ hi htask t hrefresh ht).2 hrefresh
  selected := h.selected

theorem Inv.finish (h : Inv p) (hplace : place = p.place) : Inv (p.finish i place) where
  here t ht := by
    rcases List.mem_append.mp ht with hold | hnew
    · exact h.here t (List.mem_of_mem_eraseIdx hold)
    · obtain rfl := List.mem_singleton.mp hnew
      exact hplace
  shown hnone := absurd ⟨_, _, rfl⟩ (hnone _ (List.mem_append_right _ (List.mem_singleton_self _)))
  selected := h.selected

/-- The rows of a listing that succeeded are those of the page's place. -/
theorem Inv.listed (h : Inv p) (hplace : place = p.place) : Inv (p.listed le i place ending a) := by
  have herased : ∀ t ∈ p.tasks.eraseIdx i, t.place = p.place := fun t ht =>
    h.here t (List.mem_of_mem_eraseIdx ht)
  cases a with
  | ok rows =>
    exact
      { here := herased
        shown := fun _ place' rows' hlast => by
          obtain ⟨rfl, hrows⟩ : place = place' ∧ some rows = some rows' := by
            simpa [Page.listed] using hlast
          obtain rfl := Option.some.inj hrows
          exact ⟨hplace, fun e he => List.mem_mergeSort.mp he⟩
        selected := fun e he => absurd he List.not_mem_nil }
  | failed =>
    exact
      { here := herased
        shown := fun _ place' rows' hlast => by simp [Page.listed] at hlast
        selected := h.selected }

/-- Going on with what is left of an operation. -/
theorem Inv.next (h : Inv p) (hi : p.tasks[i]? = some task) (htask : ¬ task.IsRefresh)
    (hplace : task'.place = task.place) :
    Inv { p with tasks := p.tasks.set i task', sent := p.sent ++ [request] } where
  here t ht := by
    rcases List.mem_or_eq_of_mem_set ht with hold | rfl
    · exact h.here t hold
    · exact hplace.trans (h.here task (List.mem_of_getElem? hi))
  shown hnone := h.shown fun t ht hrefresh =>
    hnone t (refresh_mem_set hi htask hrefresh ht).1 hrefresh
  selected := h.selected

theorem Inv.answered (h : Inv p) : Inv (p.answered le i a) := by
  have hhere {task : Task} (hi : p.tasks[i]? = some task) : task.place = p.place :=
    h.here task (List.mem_of_getElem? hi)
  unfold Page.answered
  split
  · exact h
  · next hi => exact h.listed (hhere hi)
  · next hrefresh hi =>
    apply h.fail hi
    rintro ⟨place, ending, rfl⟩
    exact hrefresh _ _ rfl
  · next hi => exact h.next hi (by rintro ⟨_, _, ⟨⟩⟩) rfl
  · next hi => exact h.finish (hhere hi)
  · next hi => exact h.next hi (by rintro ⟨_, _, ⟨⟩⟩) rfl
  · next hi => exact Inv.finish ⟨h.here, h.shown, h.selected⟩ (hhere hi)
  · next hi => exact Inv.finish ⟨h.here, h.shown, h.selected⟩ (hhere hi)

theorem inv_step (h : Inv p) (hcalm : p.Calm e) : Inv (p.step le e) := by
  cases e with
  | chooseCategory category => exact h.chooseCategory hcalm
  | «open» name =>
    simp only [step]
    split_ifs
    · exact h.goTo hcalm
    · exact h
  | crumb kept => exact h.goTo hcalm
  | select names => exact ⟨h.here, h.shown, fun e he => List.mem_of_mem_filter he⟩
  | refresh =>
    simp only [step]
    split_ifs
    · exact h
    · exact h.refresh
  | delete =>
    simp only [step, doDelete]
    split
    · exact h
    · split_ifs
      · exact h
      · exact h.begin rfl
  | upload =>
    simp only [step, doUpload]
    split
    · exact h
    · split_ifs
      · exact h
      · exact h.begin rfl
  | create =>
    simp only [step, doCreateFolder]
    split_ifs
    · exact h
    · exact h.begin rfl
  | chooseFiles _ | typeFolder _ | dismiss => exact ⟨h.here, h.shown, h.selected⟩
  | answered i a => exact h.answered

/-! ## What is deleted -/

/-- What has been and what will be asked to be deleted is warranted. -/
structure Warranted (W : Place → FileInfo → Prop) (p : Page) : Prop where
  rest : ∀ place rest, .delete place rest ∈ p.tasks → ∀ e ∈ rest, W place e
  sent : ∀ place name, .delete place name ∈ p.sent → ∃ e, e.name = name ∧ W place e

variable {W W' : Place → FileInfo → Prop}

theorem Warranted.mono (h : Warranted W p) (hW : ∀ place e, W place e → W' place e) :
    Warranted W' p where
  rest place rest hrest e he := hW _ _ (h.rest place rest hrest e he)
  sent place name hsent := (h.sent place name hsent).imp fun _ he => he.imp_right (hW _ _)

theorem warranted_opened : Warranted W opened where
  rest _ _ h := by simp [opened, Page.refresh] at h
  sent _ _ h := by simp [opened, Page.refresh] at h

/-- An activity that does not delete. -/
theorem Warranted.of_subset (h : Warranted W p) {p' : Page}
    (htasks : ∀ place rest, .delete place rest ∈ p'.tasks → .delete place rest ∈ p.tasks)
    (hsent : ∀ place name, .delete place name ∈ p'.sent → .delete place name ∈ p.sent) :
    Warranted W p' where
  rest place rest hrest := h.rest place rest (htasks place rest hrest)
  sent place name hs := h.sent place name (hsent place name hs)

theorem Warranted.refresh (h : Warranted W p) : Warranted W (p.refresh place ending) := by
  apply h.of_subset
  all_goals
    intro place _ hmem
    simpa [Page.refresh] using hmem

theorem Warranted.moveTo (h : Warranted W p) : Warranted W (p.moveTo place) :=
  Warranted.refresh ⟨h.rest, h.sent⟩

theorem Warranted.goTo (h : Warranted W p) : Warranted W (p.goTo folder) := by
  unfold Page.goTo
  split_ifs
  · exact h
  · exact h.moveTo

theorem Warranted.chooseCategory (h : Warranted W p) : Warranted W (p.chooseCategory category) := by
  unfold Page.chooseCategory
  split_ifs
  · exact h
  · exact h.moveTo.goTo

theorem Warranted.erase (h : Warranted W p) {p' : Page} (htasks : p'.tasks = p.tasks.eraseIdx i)
    (hsent : p'.sent = p.sent) : Warranted W p' :=
  h.of_subset (fun _ _ hmem => List.mem_of_mem_eraseIdx (htasks ▸ hmem)) fun _ _ hmem =>
    hsent ▸ hmem

theorem Warranted.doDelete (h : Warranted W p) (hselected : ∀ e ∈ p.selected, W p.place e) :
    Warranted W p.doDelete := by
  unfold Page.doDelete
  split
  · exact h
  · next x rest hsel =>
    split_ifs
    · exact h
    · rw [hsel] at hselected
      constructor
      · intro place rest' hrest
        rcases List.mem_append.mp hrest with hold | hnew
        · exact h.rest place rest' hold
        · obtain ⟨rfl, rfl⟩ := Task.delete.inj (List.mem_singleton.mp hnew)
          exact hselected
      · intro place name hs
        rcases List.mem_append.mp hs with hold | hnew
        · exact h.sent place name hold
        · obtain ⟨rfl, rfl⟩ := Request.delete.inj (List.mem_singleton.mp hnew)
          exact ⟨x, rfl, hselected x List.mem_cons_self⟩

theorem Warranted.begin (h : Warranted W p)
    (htask : ∀ place rest, Task.delete place rest ≠ task)
    (hrequest : ∀ place name, Request.delete place name ≠ request) :
    Warranted W (p.begin task request) := by
  apply h.of_subset
  · intro place rest hmem
    exact (List.mem_append.mp hmem).resolve_right fun hnew =>
      htask place rest (List.mem_singleton.mp hnew)
  · intro place name hmem
    exact (List.mem_append.mp hmem).resolve_right fun hnew =>
      hrequest place name (List.mem_singleton.mp hnew)

theorem Warranted.finish (h : Warranted W p) : Warranted W (p.finish i place) :=
  Warranted.refresh (h.erase rfl rfl)

theorem Warranted.listed (h : Warranted W p) : Warranted W (p.listed le i place ending a) := by
  cases a with
  | ok rows => exact h.erase rfl rfl
  | failed => exact h.erase rfl rfl

theorem Warranted.answered (h : Warranted W p) : Warranted W (p.answered le i a) := by
  unfold Page.answered
  split
  · exact h
  · exact h.listed
  · exact h.erase rfl rfl
  · next place x e rest rows hi =>
    have hrest := h.rest place _ (List.mem_of_getElem? hi)
    constructor
    · intro place' rest' hmem
      rcases List.mem_or_eq_of_mem_set hmem with hold | hnew
      · exact h.rest place' rest' hold
      · obtain ⟨rfl, rfl⟩ := Task.delete.inj hnew
        exact fun e' he' => hrest e' (List.mem_cons_of_mem _ he')
    · intro place' name hmem
      rcases List.mem_append.mp hmem with hold | hnew
      · exact h.sent place' name hold
      · obtain ⟨rfl, rfl⟩ := Request.delete.inj (List.mem_singleton.mp hnew)
        exact ⟨e, rfl, hrest e (List.mem_cons_of_mem _ List.mem_cons_self)⟩
  · exact h.finish
  · apply h.of_subset
    · intro place rest hmem
      exact (List.mem_or_eq_of_mem_set hmem).resolve_right (by rintro ⟨⟩)
    · intro place name hmem
      exact (List.mem_append.mp hmem).resolve_right fun hnew => by
        cases List.mem_singleton.mp hnew
  · exact Warranted.finish ⟨h.rest, h.sent⟩
  · exact Warranted.finish ⟨h.rest, h.sent⟩

/-- One event: only a click on delete asks for more, and that for what is selected. -/
theorem Warranted.step (h : Warranted W p)
    (hdelete : e = .delete → ∀ x ∈ p.selected, W p.place x) : Warranted W (p.step le e) := by
  cases e with
  | chooseCategory category => exact h.chooseCategory
  | «open» name =>
    simp only [Page.step]
    split_ifs
    · exact h.goTo
    · exact h
  | crumb kept => exact h.goTo
  | refresh =>
    simp only [Page.step]
    split_ifs
    · exact h
    · exact h.refresh
  | delete => exact h.doDelete (hdelete rfl)
  | upload =>
    simp only [Page.step, doUpload]
    split
    · exact h
    · split_ifs
      · exact h
      · exact h.begin (by rintro _ _ ⟨⟩) (by rintro _ _ ⟨⟩)
  | create =>
    simp only [Page.step, doCreateFolder]
    split_ifs
    · exact h
    · exact h.begin (by rintro _ _ ⟨⟩) (by rintro _ _ ⟨⟩)
  | select _ | chooseFiles _ | typeFolder _ | dismiss => exact ⟨h.rest, h.sent⟩
  | answered i a => exact h.answered

/-- At some click on delete the page was at the place and the entry was selected, in the rows of the
last listing to end, which was one of the place. -/
def Clicked (le : String → String → Bool) (es : List Event) (place : Place) (e : FileInfo) : Prop :=
  ∃ before after, es = before ++ Event.delete :: after ∧
    (run (step le) before opened).place = place ∧ e ∈ (run (step le) before opened).selected ∧
      ∃ rows, (run (step le) before opened).listings.getLast? = some (place, some rows) ∧ e ∈ rows

theorem Clicked.append {es : List Event} {x : FileInfo} (h : Clicked le es place x)
    (es' : List Event) : Clicked le (es ++ es') place x := by
  obtain ⟨before, after, rfl, hclick⟩ := h
  exact ⟨before, after ++ es', by simp, hclick⟩

/-- What holds after any calm run. -/
theorem warranted_run (es : List Event) (h : Along (step le) Calm es opened) :
    Inv (run (step le) es opened) ∧ Warranted (Clicked le es) (run (step le) es opened) := by
  induction es using List.reverseRecOn with
  | nil => exact ⟨inv_opened, warranted_opened⟩
  | append_singleton es e ih =>
    obtain ⟨hrun, hcalm⟩ := along_concat.mp h
    obtain ⟨hinv, hwarranted⟩ := ih hrun
    rw [run_concat]
    refine ⟨inv_step hinv hcalm, (hwarranted.mono fun place x hx => hx.append [e]).step ?_⟩
    rintro rfl x hx
    -- at rest the rows are those of the last listing, which is one of the page's place
    obtain ⟨hrest, place, rows, hlast⟩ := hcalm
    obtain ⟨rfl, hrows⟩ := hinv.shown (by simp [hrest]) place rows hlast
    exact ⟨es, [], rfl, rfl, hx, rows, hlast, hrows x (hinv.selected x hx)⟩

/-- **What is deleted was listed.** While the user moves and deletes at rest only, whatever the
order of the answers, the page asks to delete from a place only what was selected there at a click
on delete, out of the rows that were listed last and for that place. -/
theorem deletes_clicked (es : List Event) (h : Along (step le) Calm es opened) (name : String)
    (hsent : .delete place name ∈ (run (step le) es opened).sent) :
    ∃ e, e.name = name ∧ Clicked le es place e :=
  (warranted_run es h).2.sent place name hsent

/-- The rows of one image are answered, and it is selected and deleted. -/
theorem deletes_clicked_image : ∃ e, e.name = "win.wim" ∧ Clicked (fun _ _ => true)
    [.answered 0 (.ok [⟨"win.wim", 8, false, []⟩]), .select ["win.wim"], .delete]
    ⟨"images", ""⟩ e :=
  deletes_clicked _
    (by
      simp [Along, Calm, LastListed, step, opened, refresh, answered, listed, sortRows])
    "win.wim"
    (by
      simp [step, opened, refresh, answered, listed, sortRows, doDelete, Page.begin])

/-- The category is changed inside of a folder, and the two listings come back the other way round:
what was listed in the folder is deleted at the top. -/
example (row : FileInfo) :
    .delete ⟨"boot", ""⟩ row.name ∈ (run (step fun _ _ => true)
      [.answered 0 (.ok [⟨"old", 0, true, []⟩]), .open "old", .answered 0 (.ok []),
        .chooseCategory "boot", .answered 1 (.ok []), .answered 0 (.ok [row]),
        .select [row.name], .delete] opened).sent := by
  simp [step, opened, refresh, answered, listed, sortRows, doDelete, Page.begin, goTo, moveTo,
    chooseCategory, under]

end Page

end WinDep.FilesTab
