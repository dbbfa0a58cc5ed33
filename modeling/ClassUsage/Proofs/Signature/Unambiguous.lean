import ClassUsage.Proofs.Signature.Language

/-!
A text is the written form of one tree only. For types this holds whatever follows the text, as each
says itself where it ends; a list of them ends before a character that none of them starts with.
-/
namespace ClassUsage.Signature

/-- No other tree has the written form of `a`, nor one that goes on after it. -/
def Cancels {α : Type} (chars : α → List Char) (a : α) : Prop :=
  ∀ b s t, chars a ++ s = chars b ++ t → a = b ∧ s = t

/-- All written forms start with a character of the given kind. -/
def StartsIn {α : Type} (kind : Char → Prop) (chars : α → List Char) : Prop :=
  ∀ a, ∃ c rest, chars a = c :: rest ∧ kind c

def EndsBefore (kind : Char → Prop) (s : List Char) : Prop := ∀ c ∈ s.head?, ¬ kind c

@[simp] theorem endsBefore_nil (kind : Char → Prop) : EndsBefore kind [] := by simp [EndsBefore]

@[simp] theorem endsBefore_cons {kind : Char → Prop} {c : Char} {s : List Char} :
    EndsBefore kind (c :: s) ↔ ¬ kind c := by
  simp [EndsBefore]

section Lists

variable {α : Type} {kind : Char → Prop} {chars : α → List Char} {s t : List Char}

private theorem not_starts (hstart : StartsIn kind chars) (ht : EndsBefore kind t) {a : α}
    (h : chars a ++ s = t) : False := by
  obtain ⟨c, rest, hc, hk⟩ := hstart a
  rw [hc] at h
  subst h
  exact endsBefore_cons.mp ht hk

theorem flatMap_cancels (hstart : StartsIn kind chars) {l m : List α}
    (hl : ∀ a ∈ l, Cancels chars a) (hs : EndsBefore kind s) (ht : EndsBefore kind t)
    (h : l.flatMap chars ++ s = m.flatMap chars ++ t) : l = m ∧ s = t := by
  induction l generalizing m with
  | nil =>
    cases m with
    | nil => exact ⟨rfl, h⟩
    | cons b m =>
      simp only [List.flatMap_nil, List.nil_append, List.flatMap_cons, List.append_assoc] at h
      exact (not_starts hstart hs h.symm).elim
  | cons a l ih =>
    cases m with
    | nil =>
      simp only [List.flatMap_nil, List.nil_append, List.flatMap_cons, List.append_assoc] at h
      exact (not_starts hstart ht h).elim
    | cons b m =>
      simp only [List.flatMap_cons, List.append_assoc] at h
      obtain ⟨ha, hl⟩ := List.forall_mem_cons.mp hl
      obtain ⟨rfl, hrest⟩ := ha b _ _ h
      obtain ⟨rfl, hst⟩ := ih hl hrest
      exact ⟨rfl, hst⟩

/-- Names are read as far as they go. -/
theorem name_cancels {x y : List Char} (hx : ∀ c ∈ x, kind c) (hy : ∀ c ∈ y, kind c)
    (hs : EndsBefore kind s) (ht : EndsBefore kind t) (h : x ++ s = y ++ t) : x = y ∧ s = t := by
  induction x generalizing y with
  | nil =>
    cases y with
    | nil => exact ⟨rfl, h⟩
    | cons d y =>
      subst h
      exact absurd (hy d List.mem_cons_self) (endsBefore_cons.mp hs)
  | cons c x ih =>
    obtain ⟨hc, hx⟩ := List.forall_mem_cons.mp hx
    cases y with
    | nil =>
      rw [List.nil_append] at h
      subst h
      exact absurd hc (endsBefore_cons.mp ht)
    | cons d y =>
      obtain ⟨rfl, hrest⟩ := List.cons.inj h
      obtain ⟨rfl, hst⟩ := ih hx (List.forall_mem_cons.mp hy).2 hrest
      exact ⟨rfl, hst⟩

end Lists

section Names

variable {s t : List Char}

theorem Identifier.cancels {a b : Identifier} (hs : EndsBefore (isStop · = false) s)
    (ht : EndsBefore (isStop · = false) t) (h : a.chars ++ s = b.chars ++ t) : a = b ∧ s = t := by
  obtain ⟨hab, hst⟩ := name_cancels a.no_stop b.no_stop hs ht h
  exact ⟨eq_of_chars hab, hst⟩

theorem OuterName.cancels {a b : OuterName} (hs : EndsBefore (isPathChar · = true) s)
    (ht : EndsBefore (isPathChar · = true) t) (h : a.chars ++ s = b.chars ++ t) :
    a = b ∧ s = t := by
  obtain ⟨hab, hst⟩ := name_cancels a.path b.path hs ht h
  exact ⟨eq_of_chars hab, hst⟩

end Names

section Starts

/-- The characters that start a reference type. -/
def IsReferenceStart (c : Char) : Prop := c = 'L' ∨ c = 'T' ∨ c = '['

theorem ReferenceType.startsIn : StartsIn IsReferenceStart ReferenceType.chars := by
  intro r
  cases r with
  | object c => exact ⟨'L', _, rfl, .inl rfl⟩
  | typeVariable name => exact ⟨'T', _, rfl, .inr (.inl rfl)⟩
  | array t => exact ⟨'[', _, rfl, .inr (.inr rfl)⟩

theorem SignatureType.startsIn : StartsIn (fun c => c ≠ ')' ∧ c ≠ 'V') SignatureType.chars := by
  intro t
  cases t with
  | primitive p => exact ⟨p.code, [], rfl, by cases p <;> decide⟩
  | reference r =>
    obtain ⟨c, rest, h, hc⟩ := ReferenceType.startsIn r
    exact ⟨c, rest, h, by rcases hc with rfl | rfl | rfl <;> decide⟩

theorem TypeArgument.startsIn : StartsIn (· ≠ '>') TypeArgument.chars := by
  intro a
  cases a with
  | any => exact ⟨'*', [], rfl, by decide⟩
  | type bound r =>
    cases bound with
    | upper => exact ⟨'+', r.chars, rfl, by decide⟩
    | lower => exact ⟨'-', r.chars, rfl, by decide⟩
    | exact =>
      obtain ⟨c, rest, h, hc⟩ := ReferenceType.startsIn r
      exact ⟨c, rest, h, by rcases hc with rfl | rfl | rfl <;> decide⟩

theorem ClassType.startsIn : StartsIn (· = 'L') ClassType.chars := fun _ => ⟨'L', _, rfl, rfl⟩

theorem argumentsChars_eq (as : List TypeArgument) :
    argumentsChars as = as.flatMap TypeArgument.chars := by
  induction as with
  | nil => rfl
  | cons a as ih => simp [argumentsChars, ih]

end Starts

section Classes

variable {s t : List Char}

/-- The arguments at every level of a class type. -/
def ClassType.levels : ClassType → List (List TypeArgument)
  | .outer _ as => [as]
  | .member enclosing _ as => enclosing.levels ++ [as]

theorem ClassType.levels_nest (c : ClassType) (ms : List Member) :
    (c.nest ms).levels = c.levels ++ ms.map Member.arguments := by
  induction ms generalizing c with
  | nil => simp [nest]
  | cons m ms ih => simp [nest, ih, levels]

theorem bracketed_cancels {as bs : List TypeArgument}
    (has : ∀ a ∈ as, Cancels TypeArgument.chars a) (hs : EndsBefore (· = '<') s)
    (ht : EndsBefore (· = '<') t)
    (h : bracketed (argumentsChars as) ++ s = bracketed (argumentsChars bs) ++ t) :
    as = bs ∧ s = t := by
  by_cases ha : as = [] <;> by_cases hb : bs = []
  · subst ha
    subst hb
    exact ⟨rfl, h⟩
  · rw [bracketed_arguments hb] at h
    subst ha
    simp only [argumentsChars, bracketed, if_true, List.nil_append, List.cons_append] at h
    subst h
    simp at hs
  · rw [bracketed_arguments ha] at h
    subst hb
    simp only [argumentsChars, bracketed, if_true, List.nil_append, List.cons_append] at h
    subst h
    simp at ht
  · rw [bracketed_arguments ha, bracketed_arguments hb, argumentsChars_eq, argumentsChars_eq] at h
    simp only [List.cons_append, List.append_assoc, List.nil_append, List.cons.injEq,
      true_and] at h
    obtain ⟨rfl, hst⟩ := flatMap_cancels TypeArgument.startsIn has (by simp) (by simp) h
    exact ⟨rfl, (List.cons.inj hst).2⟩

/-- What follows a class name starts with none of its characters. -/
theorem classTail_cases (as : List TypeArgument) (ms : List Member) (s : List Char) :
    ∃ c rest, classTail as ms ++ s = c :: rest ∧ (c = '<' ∨ c = '.' ∨ c = ';') := by
  by_cases ha : as = []
  · subst ha
    cases ms with
    | nil => exact ⟨';', s, rfl, by simp⟩
    | cons m ms => exact ⟨'.', _, rfl, by simp⟩
  · exact ⟨'<', _, by rw [classTail, bracketed_arguments ha]; rfl, by simp⟩

theorem classTail_endsBefore {kind : Char → Prop} (hkind : ∀ c, kind c → c ≠ '<' ∧ c ≠ '.' ∧ c ≠ ';')
    (as : List TypeArgument) (ms : List Member) (s : List Char) :
    EndsBefore kind (classTail as ms ++ s) := by
  obtain ⟨c, rest, h, hc⟩ := classTail_cases as ms s
  rw [h, endsBefore_cons]
  intro hk
  have := hkind c hk
  rcases hc with rfl | rfl | rfl <;> simp at this

theorem classTail_stops (as : List TypeArgument) (ms : List Member) (s : List Char) :
    EndsBefore (isStop · = false) (classTail as ms ++ s) := by
  apply classTail_endsBefore
  intro c hc
  refine ⟨?_, ?_, ?_⟩ <;> rintro rfl <;> contradiction

theorem classTail_leavesPath (as : List TypeArgument) (ms : List Member) (s : List Char) :
    EndsBefore (isPathChar · = true) (classTail as ms ++ s) := by
  apply classTail_endsBefore
  intro c hc
  refine ⟨?_, ?_, ?_⟩ <;> rintro rfl <;> contradiction

private theorem classTail_split (as : List TypeArgument) (ms : List Member) (s : List Char) :
    classTail as ms ++ s =
      bracketed (argumentsChars as) ++ (membersChars ms ++ ';' :: s) := by
  simp [classTail]

private theorem members_leave_brackets (ms : List Member) (s : List Char) :
    EndsBefore (· = '<') (membersChars ms ++ ';' :: s) := by
  cases ms <;> simp [membersChars]

theorem members_cancel {ms ns : List Member}
    (hms : ∀ m ∈ ms, ∀ a ∈ m.arguments, Cancels TypeArgument.chars a)
    (h : membersChars ms ++ ';' :: s = membersChars ns ++ ';' :: t) : ms = ns ∧ s = t := by
  induction ms generalizing ns with
  | nil =>
    cases ns with
    | nil => exact ⟨rfl, (List.cons.inj h).2⟩
    | cons n ns => simp [membersChars] at h
  | cons m ms ih =>
    cases ns with
    | nil => simp [membersChars] at h
    | cons n ns =>
      obtain ⟨hm, hms⟩ := List.forall_mem_cons.mp hms
      have hm' : m.name.chars ++ (classTail m.arguments ms ++ s) =
          n.name.chars ++ (classTail n.arguments ns ++ t) := by
        simpa [membersChars, classTail_split] using h
      obtain ⟨hname, htail⟩ :=
        Identifier.cancels (classTail_stops _ _ _) (classTail_stops _ _ _) hm'
      rw [classTail_split, classTail_split] at htail
      obtain ⟨hargs, hrest⟩ :=
        bracketed_cancels hm (members_leave_brackets _ _) (members_leave_brackets _ _) htail
      obtain ⟨rfl, hst⟩ := ih hms hrest
      refine ⟨?_, hst⟩
      cases m
      cases n
      cases hname
      cases hargs
      rfl

theorem class_cancels {c d : ClassType}
    (hc : ∀ as ∈ c.levels, ∀ a ∈ as, Cancels TypeArgument.chars a)
    (h : c.inside ++ ';' :: s = d.inside ++ ';' :: t) : c = d ∧ s = t := by
  obtain ⟨o, as, ms, rfl⟩ := c.exists_nest
  obtain ⟨p, bs, ns, rfl⟩ := d.exists_nest
  have ho : o.chars ++ (classTail as ms ++ s) = p.chars ++ (classTail bs ns ++ t) := by
    simpa [ClassType.inside_nest, ClassType.inside, classTail] using h
  obtain ⟨rfl, htail⟩ :=
    OuterName.cancels (classTail_leavesPath _ _ _) (classTail_leavesPath _ _ _) ho
  have has : ∀ a ∈ as, Cancels TypeArgument.chars a :=
    hc as (by simp [ClassType.levels_nest, ClassType.levels])
  have hms : ∀ m ∈ ms, ∀ a ∈ m.arguments, Cancels TypeArgument.chars a := by
    intro m hm
    apply hc m.arguments
    simp only [ClassType.levels_nest, List.mem_append, List.mem_map]
    exact .inr ⟨m, hm, rfl⟩
  rw [classTail_split, classTail_split] at htail
  obtain ⟨rfl, hrest⟩ :=
    bracketed_cancels has (members_leave_brackets _ _) (members_leave_brackets _ _) htail
  obtain ⟨rfl, hst⟩ := members_cancel hms hrest
  exact ⟨rfl, hst⟩

end Classes

theorem Primitive.code_injective {p q : Primitive} (h : p.code = q.code) : p = q := by
  have := congrArg Primitive.ofCode? h
  simpa using this

/-- A primitive type starts like no reference type. -/
theorem primitive_ne_reference {p : Primitive} {r : ReferenceType} {s t : List Char} :
    [p.code] ++ s ≠ r.chars ++ t := by
  intro h
  obtain ⟨c, rest, hr, hc⟩ := ReferenceType.startsIn r
  rw [hr] at h
  have hpc : p.code = c := (List.cons.inj h).1
  rcases hc with rfl | rfl | rfl <;> cases p <;> contradiction

/-- The bound that a type argument with this first character has. -/
def Bound.ofStart (c : Char) : Bound :=
  if c = '+' then .upper else if c = '-' then .lower else .exact

theorem TypeArgument.start_type (bound : Bound) (r : ReferenceType) :
    ∃ c rest, (TypeArgument.type bound r).chars = c :: rest ∧ Bound.ofStart c = bound ∧ c ≠ '*' := by
  cases bound with
  | upper => exact ⟨'+', r.chars, rfl, rfl, by decide⟩
  | lower => exact ⟨'-', r.chars, rfl, rfl, by decide⟩
  | exact =>
    obtain ⟨c, rest, h, hc⟩ := ReferenceType.startsIn r
    refine ⟨c, rest, h, ?_⟩
    rcases hc with rfl | rfl | rfl <;> decide

theorem TypeArgument.any_ne_type {bound : Bound} {r : ReferenceType} {s t : List Char} :
    TypeArgument.any.chars ++ s ≠ (TypeArgument.type bound r).chars ++ t := by
  intro h
  obtain ⟨c, rest, hc, -, hne⟩ := start_type bound r
  rw [hc] at h
  exact hne (List.cons.inj h).1.symm

theorem TypeArgument.cancels_type {bound : Bound} {r : ReferenceType}
    (hr : Cancels ReferenceType.chars r) : Cancels TypeArgument.chars (.type bound r) := by
  intro b s t h
  cases b with
  | any => exact absurd h.symm any_ne_type
  | type bound' r' =>
    have hb : bound = bound' := by
      obtain ⟨c, rest, hc, hbound, -⟩ := start_type bound r
      obtain ⟨d, rest', hd, hbound', -⟩ := start_type bound' r'
      rw [hc, hd] at h
      rw [← hbound, ← hbound', (List.cons.inj h).1]
    subst hb
    simp only [chars, List.append_assoc, List.append_cancel_left_eq] at h
    obtain ⟨rfl, hst⟩ := hr r' s t h
    exact ⟨rfl, hst⟩

mutual

theorem SignatureType.cancels : ∀ t : SignatureType, Cancels SignatureType.chars t
  | .primitive p => by
    intro b s t h
    cases b with
    | primitive q =>
      obtain ⟨hcode, hst⟩ := List.cons.inj h
      exact ⟨by rw [Primitive.code_injective hcode], hst⟩
    | reference r => exact absurd h primitive_ne_reference
  | .reference r => by
    intro b s t h
    cases b with
    | primitive q => exact absurd h.symm primitive_ne_reference
    | reference r' =>
      obtain ⟨rfl, hst⟩ := r.cancels r' s t h
      exact ⟨rfl, hst⟩

theorem ReferenceType.cancels : ∀ r : ReferenceType, Cancels ReferenceType.chars r
  | .object c => by
    intro b s t h
    cases b with
    | object d =>
      have hinside : c.inside ++ ';' :: s = d.inside ++ ';' :: t := by
        simpa [ReferenceType.chars] using h
      obtain ⟨rfl, hst⟩ := class_cancels c.levels_cancel hinside
      exact ⟨rfl, hst⟩
    | typeVariable name => simp [ReferenceType.chars] at h
    | array component => simp [ReferenceType.chars] at h
  | .typeVariable name => by
    intro b s t h
    cases b with
    | object d => simp [ReferenceType.chars] at h
    | typeVariable name' =>
      have hname : name.chars ++ ';' :: s = name'.chars ++ ';' :: t := by
        simpa [ReferenceType.chars] using h
      obtain ⟨rfl, hst⟩ := Identifier.cancels (by simp [isStop]) (by simp [isStop]) hname
      exact ⟨rfl, (List.cons.inj hst).2⟩
    | array component => simp [ReferenceType.chars] at h
  | .array component => by
    intro b s t h
    cases b with
    | object d => simp [ReferenceType.chars] at h
    | typeVariable name => simp [ReferenceType.chars] at h
    | array component' =>
      obtain ⟨rfl, hst⟩ := component.cancels component' s t (List.cons.inj h).2
      exact ⟨rfl, hst⟩

theorem ClassType.levels_cancel :
    ∀ c : ClassType, ∀ as ∈ c.levels, ∀ a ∈ as, Cancels TypeArgument.chars a
  | .outer _ arguments => by
    intro as has
    rw [ClassType.levels, List.mem_singleton] at has
    rw [has]
    exact arguments_cancel arguments
  | .member enclosing _ arguments => by
    intro as has
    rw [ClassType.levels, List.mem_append, List.mem_singleton] at has
    rcases has with has | has
    · exact enclosing.levels_cancel as has
    · rw [has]
      exact arguments_cancel arguments

theorem TypeArgument.cancels : ∀ a : TypeArgument, Cancels TypeArgument.chars a
  | .any => by
    intro b s t h
    cases b with
    | any => exact ⟨rfl, (List.cons.inj h).2⟩
    | type bound r => exact absurd h TypeArgument.any_ne_type
  | .type _ r => TypeArgument.cancels_type r.cancels

theorem arguments_cancel : ∀ as : List TypeArgument, ∀ a ∈ as, Cancels TypeArgument.chars a
  | [] => by simp
  | a :: as => List.forall_mem_cons.mpr ⟨a.cancels, arguments_cancel as⟩

end

theorem ClassType.cancels (c : ClassType) : Cancels ClassType.chars c := by
  intro d s t h
  apply class_cancels c.levels_cancel
  simpa [chars] using h

section Parameters

variable {s t : List Char}

theorem parametersTail_cases (ps : List TypeParameter) (s : List Char) :
    ∃ c rest, parametersTail ps ++ s = c :: rest ∧
      (c = '>' ∧ ps = [] ∨ isStop c = false ∧ ∃ p, ps.head? = some p ∧ p.name.chars.head? = some c) := by
  cases ps with
  | nil => exact ⟨'>', s, rfl, .inl ⟨rfl, rfl⟩⟩
  | cons p ps =>
    obtain ⟨c, rest, hc⟩ := List.exists_cons_of_ne_nil p.name.ne_nil
    refine ⟨c, _, by rw [parametersTail_cons, hc]; rfl, .inr ⟨?_, p, rfl, by rw [hc]; rfl⟩⟩
    exact p.name.no_stop c (by rw [hc]; exact List.mem_cons_self)

theorem parametersTail_leaves_bounds (ps : List TypeParameter) (s : List Char) :
    EndsBefore (· = ':') (parametersTail ps ++ s) := by
  obtain ⟨c, rest, h, hc⟩ := parametersTail_cases ps s
  rw [h, endsBefore_cons]
  rintro rfl
  rcases hc with ⟨hc, -⟩ | ⟨hc, -⟩ <;> contradiction

/-- Where a class bound is left out, what follows is not taken for one. -/
theorem no_bound_starts {rs : List ReferenceType} {ps : List TypeParameter}
    (hd : Distinct none rs ps) (s : List Char) :
    EndsBefore IsReferenceStart (rs.flatMap (fun r => ':' :: r.chars) ++ (parametersTail ps ++ s)) := by
  cases rs with
  | cons r rs =>
    rw [List.flatMap_cons, List.cons_append, List.cons_append, endsBefore_cons]
    rintro (h | h | h) <;> contradiction
  | nil =>
    obtain ⟨c, rest, h, hc⟩ := parametersTail_cases ps s
    rw [List.flatMap_nil, List.nil_append, h, endsBefore_cons]
    rcases hc with ⟨rfl, -⟩ | ⟨hstop, p, hp, hhead⟩
    · rintro (h | h | h) <;> contradiction
    · have hlike := hd rfl rfl p hp
      simp only [TypeParameter.looksLikeBound, hhead, Option.some.injEq, Bool.or_eq_false_iff,
        decide_eq_false_iff_not] at hlike
      rintro (rfl | rfl | rfl)
      · exact hlike.1 rfl
      · exact hlike.2 rfl
      · contradiction

theorem interfaceBounds_cancel {rs qs : List ReferenceType} (hs : EndsBefore (· = ':') s)
    (ht : EndsBefore (· = ':') t)
    (h : rs.flatMap (fun r => ':' :: r.chars) ++ s = qs.flatMap (fun r => ':' :: r.chars) ++ t) :
    rs = qs ∧ s = t := by
  have hstart : StartsIn (· = ':') fun r : ReferenceType => ':' :: r.chars :=
    fun r => ⟨':', r.chars, rfl, rfl⟩
  refine flatMap_cancels hstart ?_ hs ht h
  intro r _ q s t h
  exact r.cancels q s t (List.cons.inj h).2

theorem bounds_cancel {b c : Option ReferenceType} {rs qs : List ReferenceType}
    {ps os : List TypeParameter} (hb : Distinct b rs ps) (hc : Distinct c qs os)
    (h : boundsChars b rs ++ (parametersTail ps ++ s) =
      boundsChars c qs ++ (parametersTail os ++ t)) :
    b = c ∧ rs = qs ∧ parametersTail ps ++ s = parametersTail os ++ t := by
  simp only [boundsChars, List.append_assoc] at h
  have hbc : b = c ∧ rs.flatMap (fun r => ':' :: r.chars) ++ (parametersTail ps ++ s) =
      qs.flatMap (fun r => ':' :: r.chars) ++ (parametersTail os ++ t) := by
    cases b with
    | none =>
      cases c with
      | none => exact ⟨rfl, h⟩
      | some r => exact (not_starts ReferenceType.startsIn (no_bound_starts hb s) h.symm).elim
    | some r =>
      cases c with
      | none => exact (not_starts ReferenceType.startsIn (no_bound_starts hc t) h).elim
      | some q =>
        obtain ⟨rfl, hrest⟩ := r.cancels q _ _ h
        exact ⟨rfl, hrest⟩
  obtain ⟨rfl, hrest⟩ := hbc
  obtain ⟨rfl, hst⟩ := interfaceBounds_cancel (parametersTail_leaves_bounds _ _)
    (parametersTail_leaves_bounds _ _) hrest
  exact ⟨rfl, rfl, hst⟩

theorem parametersTail_cancels {ps qs : List TypeParameter}
    (hps : TypeParameter.separate ps = true) (hqs : TypeParameter.separate qs = true)
    (h : parametersTail ps ++ s = parametersTail qs ++ t) : ps = qs ∧ s = t := by
  induction ps generalizing qs with
  | nil =>
    cases qs with
    | nil => exact ⟨rfl, (List.cons.inj h).2⟩
    | cons q qs =>
      obtain ⟨c, rest, hq, hc⟩ := parametersTail_cases (q :: qs) t
      rw [hq] at h
      obtain ⟨rfl, -⟩ := List.cons.inj h
      rcases hc with ⟨-, hnil⟩ | ⟨hstop, -⟩ <;> contradiction
  | cons p ps ih =>
    cases qs with
    | nil =>
      obtain ⟨c, rest, hp, hc⟩ := parametersTail_cases (p :: ps) s
      rw [hp] at h
      obtain ⟨rfl, -⟩ := List.cons.inj h
      rcases hc with ⟨-, hnil⟩ | ⟨hstop, -⟩ <;> contradiction
    | cons q qs =>
      obtain ⟨hp, hps⟩ := separate_cons.mp hps
      obtain ⟨hq, hqs⟩ := separate_cons.mp hqs
      simp only [parametersTail_cons, List.append_assoc, List.cons_append] at h
      obtain ⟨hname, hbounds⟩ := Identifier.cancels (by simp [isStop]) (by simp [isStop]) h
      obtain ⟨hbound, hrs, hrest⟩ := bounds_cancel hp hq (List.cons.inj hbounds).2
      obtain ⟨rfl, hst⟩ := ih hps hqs hrest
      refine ⟨?_, hst⟩
      cases p
      cases q
      cases hname
      cases hbound
      cases hrs
      rfl

theorem typeParameters_cancel {ps qs : List TypeParameter}
    (hps : TypeParameter.separate ps = true) (hqs : TypeParameter.separate qs = true)
    (hs : EndsBefore (· = '<') s) (ht : EndsBefore (· = '<') t)
    (h : typeParametersChars ps ++ s = typeParametersChars qs ++ t) : ps = qs ∧ s = t := by
  by_cases hp : ps = [] <;> by_cases hq : qs = []
  · subst hp
    subst hq
    exact ⟨rfl, h⟩
  · subst hp
    rw [typeParametersChars_of_ne_nil hq] at h
    simp only [typeParametersChars, List.flatMap_nil, bracketed, if_true, List.nil_append,
      List.cons_append] at h
    subst h
    simp at hs
  · subst hq
    rw [typeParametersChars_of_ne_nil hp] at h
    simp only [typeParametersChars, List.flatMap_nil, bracketed, if_true, List.nil_append,
      List.cons_append] at h
    subst h
    simp at ht
  · rw [typeParametersChars_of_ne_nil hp, typeParametersChars_of_ne_nil hq] at h
    exact parametersTail_cancels hps hqs (List.cons.inj h).2

end Parameters

section Signatures

theorem SignatureType.chars_injective {a b : SignatureType} (h : a.chars = b.chars) : a = b := by
  refine (a.cancels b [] [] ?_).1
  rw [h]

theorem ClassSignature.chars_injective {a b : ClassSignature}
    (ha : TypeParameter.separate a.typeParameters = true)
    (hb : TypeParameter.separate b.typeParameters = true) (h : a.chars = b.chars) : a = b := by
  obtain ⟨ps, c, cs⟩ := a
  obtain ⟨qs, d, ds⟩ := b
  simp only [chars, List.append_assoc] at h
  obtain ⟨rfl, hclasses⟩ := typeParameters_cancel ha hb (by simp [ClassType.chars])
    (by simp [ClassType.chars]) h
  obtain ⟨rfl, hinterfaces⟩ := c.cancels d _ _ hclasses
  have hlists : cs.flatMap ClassType.chars ++ [] = ds.flatMap ClassType.chars ++ [] := by
    simpa using hinterfaces
  obtain ⟨rfl, -⟩ := flatMap_cancels ClassType.startsIn (fun c _ => c.cancels) (endsBefore_nil _)
    (endsBefore_nil _) hlists
  rfl

theorem Thrown.type_injective {a b : Thrown} (h : a.type = b.type) : a = b := by
  cases a <;> cases b <;> simp_all [type]

theorem throws_cancel {ts us : List Thrown} (h : throwsChars ts = throwsChars us) : ts = us := by
  have hlists : throwsChars ts ++ [] = throwsChars us ++ [] := by rw [h]
  have hstart : StartsIn (· = '^') fun t : Thrown => '^' :: t.type.chars :=
    fun t => ⟨'^', t.type.chars, rfl, rfl⟩
  refine (flatMap_cancels hstart ?_ (endsBefore_nil _) (endsBefore_nil _) hlists).1
  intro a _ b s t h
  obtain ⟨htype, hst⟩ := a.type.cancels b.type s t (List.cons.inj h).2
  exact ⟨Thrown.type_injective htype, hst⟩

theorem result_cancels {a b : Option SignatureType} {s t : List Char}
    (h : a.elim ['V'] SignatureType.chars ++ s = b.elim ['V'] SignatureType.chars ++ t) :
    a = b ∧ s = t := by
  cases a with
  | none =>
    cases b with
    | none => exact ⟨rfl, (List.cons.inj h).2⟩
    | some y =>
      obtain ⟨c, rest, hc, -, hne⟩ := y.startsIn
      rw [Option.elim_some, hc] at h
      exact absurd (List.cons.inj h).1.symm hne
  | some x =>
    cases b with
    | none =>
      obtain ⟨c, rest, hc, -, hne⟩ := x.startsIn
      rw [Option.elim_some, hc] at h
      exact absurd (List.cons.inj h).1 hne
    | some y =>
      obtain ⟨rfl, hst⟩ := x.cancels y s t h
      exact ⟨rfl, hst⟩

theorem MethodSignature.chars_injective {a b : MethodSignature}
    (ha : TypeParameter.separate a.typeParameters = true)
    (hb : TypeParameter.separate b.typeParameters = true) (h : a.chars = b.chars) : a = b := by
  obtain ⟨ps, xs, r, ts⟩ := a
  obtain ⟨qs, ys, r', us⟩ := b
  obtain ⟨rfl, hopened⟩ := typeParameters_cancel ha hb (by simp) (by simp) h
  obtain ⟨rfl, hresult⟩ := flatMap_cancels SignatureType.startsIn (fun x _ => x.cancels) (by simp)
    (by simp) (List.cons.inj hopened).2
  obtain ⟨rfl, hthrows⟩ := result_cancels (List.cons.inj hresult).2
  obtain rfl := throws_cancel hthrows
  rfl

end Signatures

end ClassUsage.Signature
