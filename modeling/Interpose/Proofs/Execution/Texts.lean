import Mathlib.Data.List.Chain
import Mathlib.Data.List.Nodup
import Mathlib.Data.Finset.Card
import Mathlib.Logic.Relation
import Interpose.Execution.Heap

/-!
# Values that have no text

The plain and the debug form of a value write each element inside the array that holds it and look
for no array that was met before. `Heap.write?` gives up behind as many arrays as the heap has. That
cuts nothing off: a value has a text exactly if it leads to no array that lies in itself, and every
text of an array is put together from the texts of its elements.
-/

namespace Interpose

/-- The array that a value refers to, also from within a box. -/
def Value.array? : Value → Option ArrayRef
  | .array r => some r
  | .boxed v => v.array?
  | _ => none

namespace Heap

/-- Whether one array has another among its elements, in a box or not. -/
def Contains (h : Heap) (r s : ArrayRef) : Prop := ∃ u ∈ h.items r, u.array? = some s

/-- Whether a value leads to an array that lies in itself. -/
def Loops (h : Heap) (v : Value) : Prop :=
  ∃ r s, v.array? = some r ∧ Relation.ReflTransGen h.Contains r s ∧ Relation.TransGen h.Contains s s

end Heap

theorem Wording.value_eq_none_iff {wording : Wording} {arrayText : ArrayRef → Option String}
    {v : Value} :
    wording.value arrayText v = none ↔ ∃ r, v.array? = some r ∧ arrayText r = none := by
  cases wording with
  | text =>
    induction v with
    | bool b => cases b <;> simp [Wording.value, Value.textWith, Value.array?]
    | boxed v ih => exact ih
    | _ => simp [Wording.value, Value.textWith, Value.array?]
  | form =>
    induction v with
    | bool b => cases b <;> simp [Wording.value, Value.formWith, Value.array?]
    | boxed v ih => simpa [Wording.value, Value.formWith, Value.array?] using ih
    | token t => cases t <;> simp [Wording.value, Value.formWith, Value.array?]
    | _ => simp [Wording.value, Value.formWith, Value.array?]

theorem mapM_eq_none_iff {α β : Type} {f : α → Option β} {l : List α} :
    l.mapM f = none ↔ ∃ a ∈ l, f a = none := by
  induction l with
  | nil => simp
  | cons a l ih =>
    rw [List.mapM_cons, List.exists_mem_cons_iff, ← ih]
    cases f a with
    | none => simp
    | some b => cases l.mapM f <;> simp

theorem Wording.value_of_some {wording : Wording} {f g : ArrayRef → Option String}
    (hfg : ∀ r s, f r = some s → g r = some s) {v : Value} {s : String}
    (hv : wording.value f v = some s) : wording.value g v = some s := by
  cases wording with
  | text =>
    induction v with
    | bool b => cases b <;> exact hv
    | array r => exact hfg r s hv
    | boxed v ih => exact ih hv
    | _ => exact hv
  | form =>
    induction v generalizing s with
    | bool b => cases b <;> exact hv
    | array r => exact hfg r s hv
    | boxed v ih =>
      obtain ⟨inner, hinner, rfl⟩ := Option.map_eq_some_iff.1 hv
      exact Option.map_eq_some_iff.2 ⟨inner, ih hinner, rfl⟩
    | token t => cases t <;> exact hv
    | _ => exact hv

theorem mapM_eq_some_of_some {α β : Type} {f g : α → Option β} {l : List α} {bs : List β}
    (hfg : ∀ a b, f a = some b → g a = some b) (hl : l.mapM f = some bs) :
    l.mapM g = some bs := by
  induction l generalizing bs with
  | nil => exact hl
  | cons a l ih =>
    rw [List.mapM_cons] at hl ⊢
    obtain ⟨b, hb, hl⟩ := Option.bind_eq_some_iff.1 hl
    obtain ⟨bs', hbs', hl⟩ := Option.bind_eq_some_iff.1 hl
    rw [hfg a b hb]
    simp only [Option.bind_eq_bind, Option.bind_some, ih hbs']
    exact hl

namespace Heap

variable {h : Heap} {wording : Wording} {v : Value}

/-- The text of an array, given the texts of its elements. -/
def arrayText (h : Heap) (wording : Wording) (element : Value → Option String) (r : ArrayRef) :
    Option String :=
  ((h.items r).toList.mapM element).map wording.array

theorem arrayText_eq_none_iff {element : Value → Option String} {r : ArrayRef} :
    h.arrayText wording element r = none ↔ ∃ u ∈ h.items r, element u = none := by
  rw [arrayText, Option.map_eq_none_iff, mapM_eq_none_iff]
  simp only [Array.mem_toList_iff]

theorem writeTo_succ (h : Heap) (wording : Wording) (depth : Nat) (v : Value) :
    h.writeTo wording (depth + 1) v =
      wording.value (h.arrayText wording (h.writeTo wording depth)) v := rfl

/-! ### Arrays that lie in themselves -/

theorem Loops.element {r : ArrayRef} (hv : h.Loops v) (hr : v.array? = some r) :
    ∃ u ∈ h.items r, h.Loops u := by
  obtain ⟨r', s, hr', hlead, hloop⟩ := hv
  cases hr.symm.trans hr'
  -- the way to `s` and around it starts in an element of `r`
  obtain ⟨t, ⟨u, hu, ht⟩, hrest⟩ := Relation.TransGen.head'_iff.1 (hloop.trans_right hlead)
  exact ⟨u, hu, t, s, ht, hrest, hloop⟩

theorem Loops.of_element {r : ArrayRef} {u : Value} (hu : u ∈ h.items r) (hloops : h.Loops u) :
    h.Loops (.array r) := by
  obtain ⟨s, s', hs, hlead, hloop⟩ := hloops
  exact ⟨r, s', rfl, .head ⟨u, hu, hs⟩ hlead, hloop⟩

theorem not_loops_of_array? (hv : v.array? = none) : ¬h.Loops v := by
  intro ⟨r, _, hr, _⟩
  cases hv.symm.trans hr

theorem writeTo_of_loops (depth : Nat) (hv : h.Loops v) : h.writeTo wording depth v = none := by
  induction depth generalizing v with
  | zero =>
    obtain ⟨r, _, hr, _⟩ := hv
    exact Wording.value_eq_none_iff.2 ⟨r, hr, rfl⟩
  | succ depth ih =>
    obtain ⟨r, _, hr, _⟩ := id hv
    obtain ⟨u, hu, hloops⟩ := hv.element hr
    rw [writeTo_succ, Wording.value_eq_none_iff]
    exact ⟨r, hr, arrayText_eq_none_iff.2 ⟨u, hu, ih hloops⟩⟩

/-- Where writing comes to no end within a depth, that many arrays lie inside each other. -/
theorem exists_chain_of_writeTo {depth : Nat} (hv : h.writeTo wording depth v = none) :
    ∃ r rs, v.array? = some r ∧ List.IsChain h.Contains (r :: rs) ∧ rs.length = depth := by
  induction depth generalizing v with
  | zero =>
    obtain ⟨r, hr, _⟩ := Wording.value_eq_none_iff.1 hv
    exact ⟨r, [], hr, .singleton r, rfl⟩
  | succ depth ih =>
    rw [writeTo_succ, Wording.value_eq_none_iff] at hv
    obtain ⟨r, hr, hnone⟩ := hv
    obtain ⟨u, hu, helement⟩ := arrayText_eq_none_iff.1 hnone
    obtain ⟨s, rs, hs, hchain, hlength⟩ := ih helement
    exact ⟨r, s :: rs, hr, hchain.cons_cons ⟨u, hu, hs⟩, congrArg Nat.succ hlength⟩

theorem id_lt_of_contains {r s : ArrayRef} (hrs : h.Contains r s) : r.id < h.arrays.size := by
  obtain ⟨u, hu, _⟩ := hrs
  refine Nat.lt_of_not_le fun hle => ?_
  simp [items, cell, Array.getD_eq_getD_getElem?, Array.getElem?_eq_none hle] at hu

theorem id_lt_of_mem_dropLast {l : List ArrayRef} (hchain : List.IsChain h.Contains l)
    {s : ArrayRef} (hs : s ∈ l.dropLast) : s.id < h.arrays.size := by
  obtain ⟨i, hi, rfl⟩ := List.getElem_of_mem hs
  have hforall := List.isChain_iff_forall₂.1 hchain
  have hi' : i < l.tail.length := hforall.length_eq ▸ hi
  exact id_lt_of_contains (hforall.get hi hi')

/-- Along a chain of arrays that never comes back to one of them, each array but the last takes a
place of its own in the heap. -/
theorem length_le_of_isChain {r : ArrayRef} {rs : List ArrayRef}
    (hchain : List.IsChain h.Contains (r :: rs))
    (hloop : ∀ s, Relation.ReflTransGen h.Contains r s → ¬Relation.TransGen h.Contains s s) :
    rs.length ≤ h.arrays.size := by
  have hordered : List.Pairwise (Relation.TransGen h.Contains) (r :: rs) :=
    (hchain.imp fun _ _ => Relation.TransGen.single).pairwise
  have hreach : ∀ s ∈ r :: rs, Relation.ReflTransGen h.Contains r s := by
    intro s hs
    rcases List.mem_cons.1 hs with rfl | hs
    · exact .refl
    · exact (List.rel_of_pairwise_cons hordered hs).to_reflTransGen
  have hnodup : (r :: rs).Nodup := by
    refine hordered.imp_of_mem fun {a b} ha _ hab heq => ?_
    subst heq
    exact hloop a (hreach a ha) hab
  have hids : ((r :: rs).dropLast.map ArrayRef.id).Nodup := by
    refine ((List.dropLast_sublist (r :: rs)).nodup hnodup).map ?_
    intro a b hab
    cases a
    exact congrArg ArrayRef.mk hab
  have hsub : (r :: rs).dropLast.map ArrayRef.id ⊆ List.range h.arrays.size := by
    intro k hk
    obtain ⟨s, hs, rfl⟩ := List.mem_map.1 hk
    exact List.mem_range.2 (id_lt_of_mem_dropLast hchain hs)
  have hlength := (List.subperm_of_subset hids hsub).length_le
  simpa using hlength

theorem loops_of_writeTo_eq_none {depth : Nat} (hdepth : h.arrays.size < depth)
    (hv : h.writeTo wording depth v = none) : h.Loops v := by
  obtain ⟨r, rs, hr, hchain, hlength⟩ := exists_chain_of_writeTo hv
  by_contra hloops
  refine absurd (length_le_of_isChain hchain fun s hlead hloop => ?_) (by omega)
  exact hloops ⟨r, s, hr, hlead, hloop⟩

/-- A value has no text exactly if it leads to an array that lies in itself. -/
theorem write?_eq_none_iff : h.write? wording v = none ↔ h.Loops v :=
  ⟨loops_of_writeTo_eq_none (Nat.lt_succ_self _), writeTo_of_loops _⟩

/-! ### Texts of arrays -/

theorem arrayText_of_some {f g : Value → Option String}
    (hfg : ∀ u s, f u = some s → g u = some s) {r : ArrayRef} {s : String}
    (hr : h.arrayText wording f r = some s) : h.arrayText wording g r = some s := by
  obtain ⟨texts, htexts, rfl⟩ := Option.map_eq_some_iff.1 hr
  exact Option.map_eq_some_iff.2 ⟨texts, mapM_eq_some_of_some hfg htexts, rfl⟩

theorem writeTo_succ_of_some {depth : Nat} {s : String} (hv : h.writeTo wording depth v = some s) :
    h.writeTo wording (depth + 1) v = some s := by
  induction depth generalizing v s with
  | zero => exact Wording.value_of_some (fun r t hr => by cases hr) hv
  | succ depth ih =>
    rw [writeTo_succ] at hv ⊢
    exact Wording.value_of_some (fun r t hr => arrayText_of_some (fun _ _ => ih) hr) hv

/-- The text of an array is put together from the texts of its elements, without an end to the
depth: the recursion that has no bound holds of the one that has. -/
theorem write?_eq (h : Heap) (wording : Wording) (v : Value) :
    h.write? wording v = wording.value (h.arrayText wording (h.write? wording)) v := by
  have hdeeper : h.write? wording v = h.writeTo wording (h.arrays.size + 2) v := by
    cases hv : h.write? wording v with
    | some s => exact (writeTo_succ_of_some hv).symm
    | none => exact (writeTo_of_loops _ (write?_eq_none_iff.1 hv)).symm
  rw [hdeeper, writeTo_succ]
  rfl

end Heap

end Interpose
