import Interpose.Proofs.Execution.Labels
import Interpose.Proofs.Interception.Woven

/-!
# Branch targets of redirected code

Redirecting a body moves every definition of a label to the place of its instruction in the new
code, and adds no label and no branch. So the index of the labels of a redirected body is that of
the old one with its places moved, or there is none, because of the same label.
-/

namespace Interpose.Module

variable {m : Module} {method : String} {b : Body} {limit : Nat} {r : Redirected}

/-- What is redirected is, but for the locals, the redirected form of a body whose locals can all be
named: the walk looks at the old locals only for their number, cut to a word. -/
theorem exists_redirected_of_redirectBody (h : m.redirectBody method b limit = .ok r) :
    ∃ b' : Body, b'.code = b.code ∧ r.code = (m.redirected b').code ∧
      ∀ k ≤ b.code.length, m.place b' k = r.placeOf k := by
  have hcode := (redirectBody_parts h).1
  let b' : Body := ⟨List.replicate (b.locals.length % UInt32.size) .object, b.code⟩
  have hlocals : b'.locals.length = b.locals.length % UInt32.size := List.length_replicate
  refine ⟨b', rfl, ?_, fun k hk => ?_⟩
  · rw [hcode, redirected, hlocals]
  · rw [place, (woven_of_redirectBody h).length_opsFrom_take _ hk, Nat.zero_add]
    rfl

/-- Outside the call sites of redirected code stand the old instructions that are no calls, at the
places that belong to their positions. Old and new code branch to the same label that they do not
define, or each has an index with the places of the last definitions; then both define the same
labels, and the places in the new index are those that belong to the places in the old one. -/
theorem redirectBody_moves_labels (h : m.redirectBody method b limit = .ok r) (name : String) :
    (r.code.zipIdx.filter fun p => !r.callSites.any (·.covers p.2)) =
      ((b.code.zipIdx.filter fun p => !p.1.isCall).map fun p => (p.1, r.placeOf p.2)) ∧
    (∀ e, indexLabels name (r.commit b).code = .error e ↔ indexLabels name b.code = .error e) ∧
    (∀ e, indexLabels name b.code = .error e ↔
      ∃ l, FirstUndefined b.code l ∧ e = .unknownLabel name l.id) ∧
    ∀ labels, indexLabels name b.code = .ok labels →
      ∃ labels', indexLabels name (r.commit b).code = .ok labels' ∧
        ∀ l, labels'.place? l = (labels.place? l).map r.placeOf ∧
          (∀ k, labels.place? l = some k ↔ LastDefined b.code l k) ∧
          ∀ k, labels'.place? l = some k ↔ LastDefined (r.commit b).code l k := by
  obtain ⟨b', hold, hnew, hplace⟩ := exists_redirected_of_redirectBody h
  have hboth := m.indexLabels_redirected b' name
  rw [hold, ← hnew] at hboth
  refine ⟨(woven_of_redirectBody h).zipIdx_outside_eq (d := 0) rfl, fun e => ?_,
    fun e => indexLabels_eq_error_iff, fun labels hlabels => ?_⟩
  · rcases hboth with ⟨e', he, he'⟩ | ⟨labels, labels', hlabels, hlabels', _⟩
    · rw [he]
      exact Eq.congr_left he'
    · exact ⟨fun h => (nomatch hlabels'.symm.trans h), fun h => (nomatch hlabels.symm.trans h)⟩
  · rcases hboth with ⟨e, he, _⟩ | ⟨known, labels', hknown, hlabels', hmoved⟩
    · cases hlabels.symm.trans he
    · cases hlabels.symm.trans hknown
      refine ⟨labels', hlabels', fun l => ⟨?_, fun k => place?_of_indexLabels hlabels,
        fun k => place?_of_indexLabels hlabels'⟩⟩
      rw [hmoved l]
      refine Option.map_congr fun k hk => hplace k ?_
      have hat := ((place?_of_indexLabels hlabels).1 hk).1
      exact Nat.le_of_lt (List.getElem?_eq_some_iff.1 hat).1

/-- A loop around two calls, with a label that is defined again behind them. -/
def loopBody : Body :=
  ⟨[], [.op (.label ⟨0⟩), .call (.direct ⟨1⟩), .op (.label ⟨1⟩), .op (.brtrue ⟨0⟩),
    .call (.direct ⟨1⟩), .op (.label ⟨0⟩), .op (.br ⟨1⟩)]⟩

theorem redirectBody_moves_labels_meeting :
    ∃ r, meeting.redirectBody "Type::run" loopBody 4 = .ok r ∧
      indexLabels "Type::run" loopBody.code = .ok [(⟨0⟩, 5), (⟨1⟩, 2)] ∧
      ∃ labels', indexLabels "Type::run" (r.commit loopBody).code = .ok labels' ∧
        labels'.place? ⟨0⟩ = some 29 ∧ labels'.place? ⟨1⟩ = some 14 ∧
        LastDefined (r.commit loopBody).code ⟨0⟩ 29 := by
  obtain ⟨r, h⟩ : ∃ r, meeting.redirectBody "Type::run" loopBody 4 = .ok r := ⟨_, rfl⟩
  have hlabels : indexLabels "Type::run" loopBody.code = .ok [(⟨0⟩, 5), (⟨1⟩, 2)] := rfl
  obtain ⟨_, _, _, hindex⟩ := redirectBody_moves_labels h "Type::run"
  obtain ⟨labels', hlabels', hplaces⟩ := hindex _ hlabels
  have hplaceOf : r.placeOf 5 = 29 ∧ r.placeOf 2 = 14 := by
    cases h
    exact ⟨rfl, rfl⟩
  have hzero : labels'.place? ⟨0⟩ = some 29 := hplaceOf.1 ▸ (hplaces ⟨0⟩).1
  have hone : labels'.place? ⟨1⟩ = some 14 := hplaceOf.2 ▸ (hplaces ⟨1⟩).1
  exact ⟨r, h, hlabels, labels', hlabels', hzero, hone, ((hplaces ⟨0⟩).2.2 29).1 hzero⟩

end Interpose.Module
