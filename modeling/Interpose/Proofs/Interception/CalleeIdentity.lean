import Interpose.Proofs.Interception.Storable

/-!
# Callees and their identities

When code is redirected, `SignatureResolver::describe` looks the callee of a call up by its token.
When the code runs, `IdentityTable::resolve` looks the identity of the callee up by the tokens of
the method and of its type, in a table of all methods. Both find the same methods and say the same
about them, and redirecting changes neither.
-/

namespace Interpose

theorem Module.Becomes.declares {m m' : Module} (h : m.Becomes m') : m.Declares m' := by
  induction h with
  | refl => exact .refl m
  | @step m' _ maxLocals task ih =>
    rcases (Redirector.withMaxLocals maxLocals).perform_cases m' task with
      ⟨reports, _, hdelivers⟩ | ⟨_, hsame⟩
    · exact ih.trans hdelivers.applied.declares
    · rw [hsame]
      exact ih

namespace IdentityTable

variable {m : Module}

/-- A table finds what the tables of the module say about a method, under its declaring type. -/
theorem resolve?_build_eq_some_iff_method? (hm : m.methods.length < 2 ^ 32) {type : TypeToken}
    {t : MethodToken} {e : MethodIdentity} :
    (build m).resolve? type t = some e ↔ ∃ d typeDef, m.method? t = some d ∧
      d.declaringType = type ∧ m.type? type = some typeDef ∧
        e = ⟨t, type, typeDef.name, d.name, d.signature⟩ := by
  rw [resolve?_build_eq_some_iff hm, Module.identity?_eq_some_iff]
  constructor
  · rintro ⟨⟨d, typeDef, hd, htype, rfl⟩, rfl⟩
    exact ⟨d, typeDef, hd, rfl, htype, rfl⟩
  · rintro ⟨d, typeDef, hd, rfl, htype, rfl⟩
    exact ⟨⟨d, typeDef, hd, htype, rfl⟩, rfl⟩

theorem describe_eq_ok_iff_resolve? (hm : m.methods.length < 2 ^ 32) {t : MethodToken}
    {c : Callee} : m.describe (.call (.direct t)) = .ok c ↔
      c.method = t ∧ ∃ e, (build m).resolve? c.declaringType t = some e ∧
        c.signature = e.signature := by
  have hdescribe : m.describe (.call (.direct t)) = m.callee t := rfl
  rw [hdescribe, Module.callee_eq_ok_iff_identity?]
  simp only [resolve?_build_eq_some_iff hm]
  constructor
  · rintro ⟨e, he, rfl⟩
    exact ⟨rfl, e, ⟨he, rfl⟩, rfl⟩
  · rintro ⟨hmethod, e, ⟨he, htype⟩, hsignature⟩
    refine ⟨e, he, ?_⟩
    rw [← hmethod, htype, ← hsignature]

/-- What is found for a callee when code is redirected and what is found for its tokens when the
code runs is the same, is there for the same methods, and stays the same whatever bodies the methods
get. Redirectors change nothing but bodies. -/
theorem resolve?_agrees_with_describe (hm : m.methods.length < 2 ^ 32) (type : TypeToken)
    (t : MethodToken) :
    (∀ e, (build m).resolve? type t = some e ↔ ∃ d typeDef, m.method? t = some d ∧
      d.declaringType = type ∧ m.type? type = some typeDef ∧
        e = ⟨t, type, typeDef.name, d.name, d.signature⟩) ∧
    (∀ c, m.describe (.call (.direct t)) = .ok c ↔
      c.method = t ∧ ∃ e, (build m).resolve? c.declaringType t = some e ∧
        c.signature = e.signature) ∧
    (∀ m', m.Declares m' →
      (build m').resolve? type t = (build m).resolve? type t ∧
        m'.describe (.call (.direct t)) = m.describe (.call (.direct t))) ∧
    ∀ m', m.Becomes m' → m.Declares m' := by
  refine ⟨fun e => resolve?_build_eq_some_iff_method? hm, fun c => describe_eq_ok_iff_resolve? hm,
    fun m' hm' => ⟨?_, hm'.describe _⟩, fun m' => Module.Becomes.declares⟩
  rw [hm'.build_eq]

/-- Three methods of one name: the type of the first does not exist, and the last calls the
second. -/
def twins : Module :=
  ⟨"twins", [⟨"Type", [⟨0⟩, ⟨1⟩, ⟨2⟩]⟩],
    [⟨⟨7⟩, "go", ⟨[], .void, true⟩, none⟩, ⟨⟨0⟩, "go", ⟨[.int32], .value .bool, true⟩, none⟩,
      ⟨⟨0⟩, "go", ⟨[], .void, true⟩,
        some ⟨[], [.op (.ldcI4 1), .call (.direct ⟨1⟩), .op .pop, .op .ret]⟩⟩]⟩

theorem resolve?_agrees_with_describe_twins :
    twins.methods.length < 2 ^ 32 ∧ ∃ m', twins.Becomes m' ∧ m' ≠ twins ∧
      (build m').resolve? ⟨0⟩ ⟨1⟩ =
        some ⟨⟨1⟩, ⟨0⟩, "Type", "go", ⟨[.int32], .value .bool, true⟩⟩ ∧
      m'.describe (.call (.direct ⟨1⟩)) = .ok ⟨⟨1⟩, ⟨0⟩, ⟨[.int32], .value .bool, true⟩⟩ ∧
      ∀ type, (build m').resolve? type ⟨0⟩ = none := by
  have hfew : twins.methods.length < 2 ^ 32 := by decide
  have hm' : twins.Becomes (Redirector.standard.perform twins .all).module := .step .refl 65534 .all
  obtain ⟨hresolve, hdescribe, hkept, hbecomes⟩ := resolve?_agrees_with_describe hfew ⟨0⟩ ⟨1⟩
  have hdeclares := hbecomes _ hm'
  have hfound : (build twins).resolve? ⟨0⟩ ⟨1⟩ =
      some ⟨⟨1⟩, ⟨0⟩, "Type", "go", ⟨[.int32], .value .bool, true⟩⟩ :=
    (hresolve _).2 ⟨_, _, rfl, rfl, rfl, rfl⟩
  refine ⟨hfew, _, hm', by decide, (hkept _ hdeclares).1.trans hfound,
    (hkept _ hdeclares).2.trans ((hdescribe _).2 ⟨rfl, _, hfound, rfl⟩), fun type => ?_⟩
  obtain ⟨hresolve, _, hkept, _⟩ := resolve?_agrees_with_describe hfew type ⟨0⟩
  rw [(hkept _ hdeclares).1, Option.eq_none_iff_forall_ne_some]
  intro e he
  obtain ⟨d, typeDef, hd, rfl, htype, _⟩ := (hresolve e).1 he
  cases hd
  cases htype

end IdentityTable

end Interpose
