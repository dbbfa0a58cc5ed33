/-!
Finite sets of names, kept as strictly increasing lists. The order is that of code points, so a set
has one representation and two sets with the same members are equal.
-/
namespace ClassUsage

structure NameSet where
  toList : List String
  sorted : toList.Pairwise (· < ·)
  deriving DecidableEq, Repr

namespace NameSet

/-- Put a name at its place in an increasing list, unless it is there. -/
def place (x : String) : List String → List String
  | [] => [x]
  | y :: ys => if x < y then x :: y :: ys else if x = y then y :: ys else y :: place x ys

theorem mem_place {x y : String} {l : List String} : y ∈ place x l ↔ y = x ∨ y ∈ l := by
  induction l with
  | nil => simp [place]
  | cons z l ih =>
    simp only [place]
    split
    · simp
    · split
      · next h => subst h; simp
      · simp [ih, or_left_comm]

theorem sorted_place (x : String) {l : List String} (h : l.Pairwise (· < ·)) :
    (place x l).Pairwise (· < ·) := by
  induction l with
  | nil => simp [place]
  | cons y l ih =>
    obtain ⟨hy, hl⟩ := List.pairwise_cons.mp h
    simp only [place]
    split
    next hxy =>
      refine List.pairwise_cons.mpr ⟨fun z hz => ?_, h⟩
      rcases List.mem_cons.mp hz with rfl | hz
      · exact hxy
      · exact String.lt_trans hxy (hy z hz)
    next hxy =>
      split
      next => exact h
      next hne =>
        refine List.pairwise_cons.mpr ⟨fun z hz => ?_, ih hl⟩
        rcases mem_place.mp hz with rfl | hz
        · exact Std.lt_of_le_of_ne (String.not_lt.mp hxy) (Ne.symm hne)
        · exact hy z hz

def empty : NameSet := ⟨[], .nil⟩

instance : EmptyCollection NameSet := ⟨empty⟩

instance : Inhabited NameSet := ⟨empty⟩

instance : Membership String NameSet := ⟨fun s x => x ∈ s.toList⟩

instance (x : String) (s : NameSet) : Decidable (x ∈ s) :=
  inferInstanceAs (Decidable (x ∈ s.toList))

def insert (s : NameSet) (x : String) : NameSet := ⟨place x s.toList, sorted_place x s.sorted⟩

def union (s t : NameSet) : NameSet := t.toList.foldl insert s

instance : Union NameSet := ⟨union⟩

def ofList (names : List String) : NameSet := names.foldl insert ∅

def singleton (x : String) : NameSet := insert ∅ x

def erase (s : NameSet) (x : String) : NameSet :=
  ⟨s.toList.filter (· != x), s.sorted.filter _⟩

/-- The members of a set that another lacks, in order. -/
def newIn (s known : NameSet) : List String := s.toList.filter fun x => decide (x ∉ known)

def size (s : NameSet) : Nat := s.toList.length

theorem mem_toList {x : String} {s : NameSet} : x ∈ s.toList ↔ x ∈ s := Iff.rfl

@[simp] theorem not_mem_empty (x : String) : x ∉ (∅ : NameSet) := List.not_mem_nil

@[simp] theorem mem_insert {x y : String} {s : NameSet} : y ∈ s.insert x ↔ y = x ∨ y ∈ s :=
  mem_place

theorem mem_foldl_insert {y : String} (l : List String) (s : NameSet) :
    y ∈ l.foldl insert s ↔ y ∈ s ∨ y ∈ l := by
  induction l generalizing s with
  | nil => simp
  | cons x l ih => simp [ih, or_assoc, or_left_comm]

@[simp] theorem mem_union {y : String} {s t : NameSet} : y ∈ s ∪ t ↔ y ∈ s ∨ y ∈ t :=
  mem_foldl_insert t.toList s

@[simp] theorem mem_ofList {y : String} {l : List String} : y ∈ ofList l ↔ y ∈ l := by
  simp [ofList, mem_foldl_insert]

@[simp] theorem mem_singleton {x y : String} : y ∈ singleton x ↔ y = x := by simp [singleton]

@[simp] theorem mem_erase {x y : String} {s : NameSet} : y ∈ s.erase x ↔ y ∈ s ∧ y ≠ x := by
  simp [← mem_toList, erase]

@[simp] theorem mem_newIn {y : String} {s known : NameSet} :
    y ∈ s.newIn known ↔ y ∈ s ∧ y ∉ known := by
  simp [newIn, mem_toList]

private theorem sorted_eq {l m : List String} (hl : l.Pairwise (· < ·)) (hm : m.Pairwise (· < ·))
    (h : ∀ x, x ∈ l ↔ x ∈ m) : l = m := by
  induction l generalizing m with
  | nil => exact (List.eq_nil_iff_forall_not_mem.mpr fun x hx => by simpa using (h x).mpr hx).symm
  | cons a l ih =>
    cases m with
    | nil => simpa using (h a).mp List.mem_cons_self
    | cons b m =>
      obtain ⟨ha, hl'⟩ := List.pairwise_cons.mp hl
      obtain ⟨hb, hm'⟩ := List.pairwise_cons.mp hm
      have hab : a = b := by
        rcases List.mem_cons.mp ((h a).mp List.mem_cons_self) with e | hab
        · exact e
        · rcases List.mem_cons.mp ((h b).mpr List.mem_cons_self) with e | hba
          · exact e.symm
          · exact absurd (hb a hab) (String.lt_asymm (ha b hba))
      subst hab
      congr 1
      refine ih hl' hm' fun x => ⟨fun hx => ?_, fun hx => ?_⟩
      · exact ((List.mem_cons.mp ((h x).mp (List.mem_cons_of_mem _ hx))).resolve_left
          fun e => String.lt_irrefl a (e ▸ ha x hx))
      · exact ((List.mem_cons.mp ((h x).mpr (List.mem_cons_of_mem _ hx))).resolve_left
          fun e => String.lt_irrefl a (e ▸ hb x hx))

theorem ext {s t : NameSet} (h : ∀ x, x ∈ s ↔ x ∈ t) : s = t := by
  obtain ⟨l, hl⟩ := s
  obtain ⟨m, hm⟩ := t
  congr 1
  exact sorted_eq hl hm h

section Union

variable (s t u : NameSet)

theorem union_comm : s ∪ t = t ∪ s := by
  apply ext
  intro x
  simp [or_comm]

theorem union_assoc : s ∪ t ∪ u = s ∪ (t ∪ u) := by
  apply ext
  intro x
  simp [or_assoc]

theorem union_left_comm : s ∪ (t ∪ u) = t ∪ (s ∪ u) := by
  rw [← union_assoc, union_comm s t, union_assoc]

@[simp] theorem union_empty : s ∪ ∅ = s := by
  apply ext
  intro x
  simp

@[simp] theorem empty_union : ∅ ∪ s = s := by
  rw [union_comm, union_empty]

end Union

end NameSet

end ClassUsage
