import Interpose.Execution.Frame

/-!
# What an index of labels says

An index, as `index_labels` makes it, has for each label that code defines the place of the last
definition. There is no index if code branches to a label that it does not define, and the fault
names the first such label.
-/

namespace Interpose

/-- The last definition of a label in code stands at a position. -/
def LastDefined (code : List Instr) (l : Label) (k : Nat) : Prop :=
  code[k]? = some (.op (.label l)) ∧ ∀ j, k < j → code[j]? ≠ some (.op (.label l))

/-- Of the labels that code branches to, in order, the first one that it does not define. -/
def FirstUndefined (code : List Instr) (l : Label) : Prop :=
  .op (.label l) ∉ code ∧ ∃ front back, code.filterMap Instr.target? = front ++ l :: back ∧
    ∀ k ∈ front, .op (.label k) ∈ code

variable {code : List Instr} {l : Label} {k : Nat}

theorem lastDefined_cons_iff (i : Instr) : LastDefined (i :: code) l k ↔
    (k = 0 ∧ i = .op (.label l) ∧ .op (.label l) ∉ code) ∨
      ∃ n, k = n + 1 ∧ LastDefined code l n := by
  cases k with
  | zero =>
    have hlater : (∀ j, 0 < j → (i :: code)[j]? ≠ some (.op (.label l))) ↔
        .op (.label l) ∉ code := by
      constructor
      · intro h hmem
        obtain ⟨n, hn⟩ := List.mem_iff_getElem?.1 hmem
        exact h (n + 1) n.succ_pos hn
      · intro h j hj hat
        cases j with
        | zero => exact absurd hj (Nat.lt_irrefl 0)
        | succ j => exact h (List.mem_of_getElem? hat)
    have hfirst : (i :: code)[0]? = some (.op (.label l)) ↔ i = .op (.label l) := by simp
    unfold LastDefined
    rw [hlater, hfirst]
    simp
  | succ k =>
    have hlater : (∀ j, k + 1 < j → (i :: code)[j]? ≠ some (.op (.label l))) ↔
        ∀ j, k < j → code[j]? ≠ some (.op (.label l)) := by
      constructor
      · exact fun h j hj => h (j + 1) (Nat.succ_lt_succ hj)
      · intro h j hj
        cases j with
        | zero => exact absurd hj (Nat.not_lt_zero _)
        | succ j => exact h j (Nat.lt_of_succ_lt_succ hj)
    unfold LastDefined
    rw [hlater, List.getElem?_cons_succ]
    simp

theorem exists_lastDefined_iff : (∃ k, LastDefined code l k) ↔ .op (.label l) ∈ code := by
  constructor
  · rintro ⟨k, hat, _⟩
    exact List.mem_of_getElem? hat
  · intro hmem
    induction code with
    | nil => cases hmem
    | cons i rest ih =>
      by_cases hlater : .op (.label l) ∈ rest
      · obtain ⟨k, hk⟩ := ih hlater
        exact ⟨k + 1, (lastDefined_cons_iff i).2 (.inr ⟨k, rfl, hk⟩)⟩
      · have hi : i = .op (.label l) := ((List.mem_cons.1 hmem).resolve_right hlater).symm
        exact ⟨0, (lastDefined_cons_iff i).2 (.inl ⟨rfl, hi, hlater⟩)⟩

namespace LabelIndex

/-- Only the definition of a label changes an index, and only its entry. -/
theorem exists_collect_cons (labels : LabelIndex) (position : Nat) (i : Instr) :
    ∃ labels₁ : LabelIndex, (∀ code, labels.collect position (i :: code) =
        labels₁.collect (position + 1) code) ∧
      ∀ l, labels₁.place? l = if i = .op (.label l) then some position else labels.place? l := by
  cases i with
  | call t => exact ⟨labels, fun _ => rfl, fun l => (if_neg nofun).symm⟩
  | op o =>
    cases o with
    | label l =>
      refine ⟨define l position labels, fun _ => rfl, fun k => ?_⟩
      simp only [place?_define, Instr.op.injEq, Op.label.injEq, eq_comm]
    | _ => exact ⟨labels, fun _ => rfl, fun l => (if_neg nofun).symm⟩

/-- Of several definitions of a label the last one stands; what was known of other labels stays. -/
theorem place?_collect_eq_some_iff (labels : LabelIndex) (position : Nat) {n : Nat} :
    (labels.collect position code).place? l = some n ↔
      (∃ k, n = position + k ∧ LastDefined code l k) ∨
        (.op (.label l) ∉ code ∧ labels.place? l = some n) := by
  induction code generalizing labels position with
  | nil => simp [collect, LastDefined]
  | cons i rest ih =>
    obtain ⟨labels₁, hcollect, hplace⟩ := exists_collect_cons labels position i
    have hshift : (∃ k, n = position + 1 + k ∧ LastDefined rest l k) ↔
        ∃ k, n = position + k ∧ ∃ j, k = j + 1 ∧ LastDefined rest l j := by
      constructor
      · rintro ⟨k, hn, hk⟩
        exact ⟨k + 1, by omega, k, rfl, hk⟩
      · rintro ⟨_, hn, k, rfl, hk⟩
        exact ⟨k, by omega, hk⟩
    rw [hcollect, ih, hplace, hshift]
    simp only [lastDefined_cons_iff, List.mem_cons]
    grind

end LabelIndex

/-! ### Indexing code -/

theorem place?_collect_nil_eq_some_iff :
    (LabelIndex.collect [] 0 code).place? l = some k ↔ LastDefined code l k := by
  rw [LabelIndex.place?_collect_eq_some_iff]
  simp [LabelIndex.place?]

theorem isNone_place?_collect_nil_iff :
    ((LabelIndex.collect [] 0 code).place? l).isNone = true ↔ .op (.label l) ∉ code := by
  rw [← exists_lastDefined_iff, Option.isNone_iff_eq_none, Option.eq_none_iff_forall_ne_some]
  simp only [place?_collect_nil_eq_some_iff, not_exists, ne_eq]

theorem missingLabel?_collect_nil_eq_some_iff :
    missingLabel? (LabelIndex.collect [] 0 code) code = some l ↔ FirstUndefined code l := by
  unfold missingLabel? FirstUndefined
  rw [List.find?_eq_some_iff_append, isNone_place?_collect_nil_iff]
  simp only [Bool.not_eq_true', ← Bool.not_eq_true, isNone_place?_collect_nil_iff,
    Decidable.not_not]

theorem missingLabel?_collect_nil_eq_none_iff :
    missingLabel? (LabelIndex.collect [] 0 code) code = none ↔
      ∀ i ∈ code, ∀ l, i.target? = some l → .op (.label l) ∈ code := by
  unfold missingLabel?
  rw [List.find?_eq_none]
  simp only [isNone_place?_collect_nil_iff, Decidable.not_not, List.mem_filterMap,
    forall_exists_index, and_imp]
  exact ⟨fun h i hi l hl => h l i hi hl, fun h l i hi hl => h i hi l hl⟩

variable {method : String} {labels : LabelIndex}

theorem indexLabels_eq_ok_iff :
    indexLabels method code = .ok labels ↔ labels = LabelIndex.collect [] 0 code ∧
      ∀ i ∈ code, ∀ l, i.target? = some l → .op (.label l) ∈ code := by
  simp only [indexLabels, ← missingLabel?_collect_nil_eq_none_iff]
  cases missingLabel? (LabelIndex.collect [] 0 code) code with
  | some l => simp
  | none => simp [eq_comm]

theorem indexLabels_eq_error_iff {e : Fault} :
    indexLabels method code = .error e ↔
      ∃ l, FirstUndefined code l ∧ e = .unknownLabel method l.id := by
  simp only [indexLabels, ← missingLabel?_collect_nil_eq_some_iff]
  cases missingLabel? (LabelIndex.collect [] 0 code) code with
  | some l => simp [eq_comm]
  | none => simp

theorem place?_of_indexLabels (h : indexLabels method code = .ok labels) :
    labels.place? l = some k ↔ LastDefined code l k := by
  rw [(indexLabels_eq_ok_iff.1 h).1]
  exact place?_collect_nil_eq_some_iff

/-- Code that is indexed has each of its branch targets, and its place is that of the label. -/
theorem target_of_indexLabels (h : indexLabels method code = .ok labels) {i : Instr}
    (hi : i ∈ code) (hl : i.target? = some l) :
    ∃ place, labels.place? l = some place ∧ code[place]? = some (.op (.label l)) := by
  have hmem := (indexLabels_eq_ok_iff.1 h).2 i hi l hl
  obtain ⟨place, hplace⟩ := exists_lastDefined_iff.2 hmem
  exact ⟨place, (place?_of_indexLabels h).2 hplace, hplace.1⟩

end Interpose
