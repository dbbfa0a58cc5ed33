import ClassUsage.Proofs.Workspace.Contribution

/-!
Steps of several listeners, some of which may share a collector. Steps that collect end with the union
of what they contribute, each to the collector of its listener; so neither their order nor doing one of
them again makes a difference, and what a collector held before it was cleared is of no account.
-/
namespace ClassUsage

/-- An action done with a listener. -/
structure Step where
  listener : String
  action : Action

namespace Workspace

/-- The workspace after some steps. -/
def run (w : Workspace) : List Step → Workspace
  | [] => w
  | s :: ss => (w.act s.listener s.action).1.run ss

/-- The replies to some steps. -/
def replies (w : Workspace) : List Step → List (Except Fault Reply)
  | [] => []
  | s :: ss => (w.act s.listener s.action).2 :: (w.act s.listener s.action).1.replies ss

/-- What steps contribute to a collector: only those of its own listeners do. -/
def contributed (w : Workspace) (collector : String) : List Step → NameSet
  | [] => ∅
  | s :: ss =>
    if w.owner s.listener = collector then s.action.contribution ∪ w.contributed collector ss
    else w.contributed collector ss

section Contributed

variable {w v : Workspace} {collector : String} {ss ss' : List Step}

theorem mem_contributed {x : String} : x ∈ w.contributed collector ss ↔
    ∃ s ∈ ss, w.owner s.listener = collector ∧ x ∈ s.action.contribution := by
  induction ss with
  | nil => simp [contributed]
  | cons s ss ih =>
    by_cases ho : w.owner s.listener = collector
    · simp [contributed, ho, ih]
    · simp [contributed, ho, ih]

/-- Only the owners of the listeners matter. -/
theorem contributed_of_owner (h : v.owner = w.owner) (collector : String) (ss : List Step) :
    v.contributed collector ss = w.contributed collector ss := by
  apply NameSet.ext
  intro x
  rw [mem_contributed, mem_contributed, h]

/-- Neither the order of steps matters nor how often each is done. -/
theorem contributed_of_same_steps (h : ∀ s, s ∈ ss ↔ s ∈ ss') (collector : String) :
    w.contributed collector ss = w.contributed collector ss' := by
  apply NameSet.ext
  intro x
  simp only [mem_contributed, h]

end Contributed

section Acting

variable {w : Workspace} {ss : List Step}

@[simp] theorem owner_act (w : Workspace) (listener : String) (a : Action) :
    (w.act listener a).1.owner = w.owner := by
  cases a <;> rfl

theorem owner_run (w : Workspace) (ss : List Step) : (w.run ss).owner = w.owner := by
  induction ss generalizing w with
  | nil => rfl
  | cons s ss ih => rw [run, ih, owner_act]

theorem run_append (w : Workspace) (ss ss' : List Step) :
    w.run (ss ++ ss') = (w.run ss).run ss' := by
  induction ss generalizing w with
  | nil => rfl
  | cons s ss ih => rw [List.cons_append, run, run, ih]

/-- A step that collects adds its contribution to the collector of its listener, and nothing else
changes. The reply is that to the action. -/
theorem act_collecting {a : Action} (h : a.Collects) (w : Workspace) (listener : String) :
    w.act listener a =
      ({ w with
          contents := set w.contents (w.owner listener) (w.namesOf listener ∪ a.contribution) },
        a.answer) := by
  have hnames := a.effect_names h (w.namesOf listener)
  have hreply := a.effect_reply h (w.namesOf listener)
  cases a with
  | add ms => simp only [act, hnames, hreply]
  | visit e => simp only [act, hnames, hreply]
  | replay document => simp only [act, hnames, hreply]
  | _ => contradiction

theorem contents_act {a : Action} (h : a.Collects) (w : Workspace) (listener collector : String) :
    (w.act listener a).1.contents collector =
      if collector = w.owner listener then w.contents collector ∪ a.contribution
      else w.contents collector := by
  rw [act_collecting h]
  by_cases hc : collector = w.owner listener
  · simp [set, hc, namesOf]
  · simp [set, hc]

/-- The final contents of each collector are those it had with all that was contributed to it. -/
theorem run_collecting (h : ∀ s ∈ ss, s.action.Collects) (w : Workspace) :
    w.run ss = { w with contents := fun c => w.contents c ∪ w.contributed c ss } := by
  induction ss generalizing w with
  | nil => simp [run, contributed]
  | cons s ss ih =>
    obtain ⟨hs, hss⟩ := List.forall_mem_cons.mp h
    have hcontents : ∀ c, (w.act s.listener s.action).1.contents c ∪ w.contributed c ss =
        w.contents c ∪ w.contributed c (s :: ss) := by
      intro c
      rw [contents_act hs, contributed]
      by_cases hc : w.owner s.listener = c
      · rw [if_pos hc.symm, if_pos hc, NameSet.union_assoc]
      · rw [if_neg (Ne.symm hc), if_neg hc]
    have hkept : (w.act s.listener s.action).1.kept = w.kept := by rw [act_collecting hs]
    rw [run, ih hss, owner_act, hkept]
    simp only [contributed_of_owner (owner_act w s.listener s.action), hcontents]

theorem replies_collecting (h : ∀ s ∈ ss, s.action.Collects) (w : Workspace) :
    w.replies ss = ss.map (·.action.answer) := by
  induction ss generalizing w with
  | nil => rfl
  | cons s ss ih =>
    obtain ⟨hs, hss⟩ := List.forall_mem_cons.mp h
    rw [replies, ih hss, act_collecting hs, List.map_cons]

theorem run_eq_of_same_steps {ss' : List Step} (h : ∀ s ∈ ss, s.action.Collects)
    (hsame : ∀ s, s ∈ ss ↔ s ∈ ss') : w.run ss' = w.run ss := by
  have h' : ∀ s ∈ ss', s.action.Collects := fun s hs => h s ((hsame s).mpr hs)
  rw [run_collecting h, run_collecting h']
  simp only [contributed_of_same_steps hsame]

theorem run_again {s : Step} (h : ∀ s ∈ ss, s.action.Collects) (hs : s ∈ ss) :
    w.run (ss ++ [s]) = w.run ss := by
  apply run_eq_of_same_steps h
  intro s'
  have hold : s' = s → s' ∈ ss := by
    rintro rfl
    exact hs
  simpa using hold

/-- Documents gone through without a fault can be analysed, and leave the names of their analyses. -/
theorem namesOf_replays {listener : String} {document document' : Json}
    (h : w.replies [⟨listener, .replay document⟩, ⟨listener, .replay document'⟩] =
      [.ok .nothing, .ok .nothing]) :
    ∃ t names t' names', Trace.ofJson noOrigin document = .ok t ∧ t.analyze.result = .ok names ∧
      Trace.ofJson noOrigin document' = .ok t' ∧ t'.analyze.result = .ok names' ∧
      (w.run [⟨listener, .replay document⟩, ⟨listener, .replay document'⟩]).namesOf listener =
        w.namesOf listener ∪ (names ∪ names') := by
  have hcollects : ∀ s ∈ [Step.mk listener (.replay document), ⟨listener, .replay document'⟩],
      s.action.Collects := by simp [Action.Collects]
  rw [replies_collecting hcollects] at h
  simp only [List.map_cons, List.map_nil, List.cons.injEq, and_true] at h
  obtain ⟨t, ht, hanalyze⟩ := (Action.answer_replay_iff document).mp h.1
  obtain ⟨t', ht', hanalyze'⟩ := (Action.answer_replay_iff document').mp h.2
  refine ⟨t, _, t', _, ht, hanalyze, ht', hanalyze', ?_⟩
  rw [run_collecting hcollects]
  simp [namesOf, contributed]

/-- Clearing empties the collector of the listener and no other. -/
theorem contents_clear (w : Workspace) (listener collector : String) :
    (w.act listener .clear).1.contents collector =
      if collector = w.owner listener then ∅ else w.contents collector := rfl

theorem contents_after_clear (h : ∀ s ∈ ss, s.action.Collects) (w : Workspace) (before : List Step)
    (listener collector : String) :
    (w.run (before ++ ⟨listener, .clear⟩ :: ss)).contents collector =
      (if collector = w.owner listener then ∅ else (w.run before).contents collector) ∪
        w.contributed collector ss := by
  have howner : ((w.run before).act listener .clear).1.owner = w.owner := by
    rw [owner_act, owner_run]
  have hcleared := contents_clear (w.run before) listener collector
  rw [owner_run] at hcleared
  simp only [run_append, run, run_collecting h, contributed_of_owner howner, hcleared]

end Acting

/-- Of steps that collect, each has a reply that does not depend on what any collector holds, and adds a
contribution of its own to the collector of its listener. So in the end every collector holds what it
held and what was contributed to it, in whatever order the steps were done; a step done again changes
nothing, and two documents gone through one after the other leave the names of both. From a collector
that is cleared the same holds with nothing in it. -/
theorem collecting_steps_unite (w : Workspace) :
    (∀ listener (a : Action), a.Collects →
      (w.act listener a).2 = a.answer ∧
        ∀ c, (w.act listener a).1.contents c =
          if c = w.owner listener then w.contents c ∪ a.contribution else w.contents c) ∧
    (∀ ss : List Step, (∀ s ∈ ss, s.action.Collects) →
      w.replies ss = ss.map (·.action.answer) ∧
        (∀ c, (w.run ss).contents c = w.contents c ∪ w.contributed c ss) ∧
        (∀ ss', ss.Perm ss' → w.run ss' = w.run ss) ∧
        ∀ s ∈ ss, w.run (ss ++ [s]) = w.run ss) ∧
    (∀ listener document document',
      w.replies [⟨listener, .replay document⟩, ⟨listener, .replay document'⟩] =
          [.ok .nothing, .ok .nothing] →
        ∃ t names t' names', Trace.ofJson noOrigin document = .ok t ∧ t.analyze.result = .ok names ∧
          Trace.ofJson noOrigin document' = .ok t' ∧ t'.analyze.result = .ok names' ∧
          (w.run [⟨listener, .replay document⟩, ⟨listener, .replay document'⟩]).namesOf listener =
            w.namesOf listener ∪ (names ∪ names')) ∧
    ∀ (before : List Step) listener (ss : List Step), (∀ s ∈ ss, s.action.Collects) →
      ((w.run before).act listener .clear).2 = .ok .nothing ∧
        ∀ c, (w.run (before ++ ⟨listener, .clear⟩ :: ss)).contents c =
          (if c = w.owner listener then ∅ else (w.run before).contents c) ∪ w.contributed c ss := by
  refine ⟨?_, ?_, fun _ _ _ => namesOf_replays, ?_⟩
  · intro listener a h
    exact ⟨by rw [act_collecting h], contents_act h w listener⟩
  · intro ss h
    refine ⟨replies_collecting h w, ?_, ?_, fun s => run_again h⟩
    · intro c
      rw [run_collecting h]
    · intro ss' hperm
      exact run_eq_of_same_steps h fun s => hperm.mem_iff
  · intro before listener ss h
    exact ⟨rfl, contents_after_clear h w before listener⟩

namespace Shelves

def shelf : Json := .object [("name", .string "app/Shelf"), ("super", .string "app/Board")]

def crate : Json := .object [("name", .string "app/Crate"), ("interfaces", .list [.string "app/Box"])]

/-- The second mention cannot be resolved. -/
def halfway : Step := ⟨"b", .add [.internal "app/Lid", .descriptor "?"]⟩

def enumUse : Step := ⟨"a", .visit (.value (.enumConstant none "Lapp/Size;" "LARGE"))⟩

end Shelves

open Shelves in
/-- Two listeners share a collector; a step of one of them fails in the middle. -/
theorem collecting_steps_unite_shelves :
    ((start true).act "a" enumUse.action).2 = enumUse.action.answer ∧
    (start true).run [enumUse, halfway] = (start true).run [halfway, enumUse] ∧
    (start true).run [halfway, enumUse, halfway] = (start true).run [halfway, enumUse] ∧
    (∃ t names t' names', Trace.ofJson noOrigin shelf = .ok t ∧ t.analyze.result = .ok names ∧
      Trace.ofJson noOrigin crate = .ok t' ∧ t'.analyze.result = .ok names' ∧
      ((start true).run [⟨"a", .replay shelf⟩, ⟨"a", .replay crate⟩]).namesOf "a" =
        ∅ ∪ (names ∪ names')) ∧
    ((start true).run [⟨"a", .replay shelf⟩, ⟨"a", .clear⟩, halfway]).contents "" =
      .ofList ["app.Lid"] := by
  obtain ⟨hact, hsteps, hreplays, hclear⟩ := collecting_steps_unite (start true)
  have hboth : ∀ s ∈ [halfway, enumUse], s.action.Collects := by
    simp [halfway, enumUse, Action.Collects]
  have hone : ∀ s ∈ [halfway], s.action.Collects := by simp [halfway, Action.Collects]
  obtain ⟨-, -, hperm, hagain⟩ := hsteps [halfway, enumUse] hboth
  refine ⟨(hact "a" enumUse.action trivial).1, hperm _ (.swap ..), hagain halfway (by simp),
    hreplays "a" shelf crate rfl, ?_⟩
  exact ((hclear [⟨"a", .replay shelf⟩] "a" [halfway] hone).2 "").trans rfl

end Workspace

end ClassUsage
