import Mathlib.Data.List.Forall2
import Interpose.Proofs.Interception.Batch
import Interpose.Proofs.Interception.Layout

/-!
# Redirecting methods one by one

Redirecting a method does not change what a module says about the callees of any call, so the other
methods can still be redirected as before, and a method that is redirected already stays as it is.
A request for several methods is therefore the same as one request after the other for each of
them, in any order and as often as one likes.
-/

namespace Interpose

namespace Redirector

/-- One method redirected after the other, each in the module that the one before has left. -/
inductive InTurn (r : Redirector) : Module → List MethodToken → Module → Prop
  | nil {m} : r.InTurn m [] m
  | cons {m t ts m' report} (first : (r.redirectMethod m t).result = .ok report)
      (later : r.InTurn (r.redirectMethod m t).module ts m') : r.InTurn m (t :: ts) m'

variable {r : Redirector} {m m' : Module} {t : MethodToken} {ts done : List MethodToken}

/-! ### Methods that are redirected already -/

theorem commit_same (b : Body) : Redirected.commit ⟨b.code, [], []⟩ b = b := by
  simp only [Redirected.commit, List.append_nil]

theorem commit_of_no_call {d : MethodDef} {b : Body} (hd : m.method? t = some d)
    (hb : d.body = some b) (report : Report) :
    (commit m ⟨t, ⟨b.code, [], []⟩, report⟩).2 = m := by
  have hmethods : (commit m ⟨t, ⟨b.code, [], []⟩, report⟩).2.methods = m.methods := by
    refine List.ext_getElem? fun k => ?_
    rw [getElem?_methods_commit]
    cases hk : m.methods[k]? with
    | none => rfl
    | some d' =>
      by_cases hpos : t.position = k
      · rw [Module.method?, hpos, hk] at hd
        cases hd
        rw [Option.map_some, if_pos hpos, hb, Option.map_some, commit_same, ← hb]
      · rw [Option.map_some, if_neg hpos]
  have hname := name_commit m ⟨t, ⟨b.code, [], []⟩, report⟩
  have htypes := (declares_commit m ⟨t, ⟨b.code, [], []⟩, report⟩).types
  generalize (commit m ⟨t, ⟨b.code, [], []⟩, report⟩).2 = m' at hmethods hname htypes
  cases m
  cases m'
  simp_all

/-- A body without calls is prepared as it is, whatever the limit. -/
theorem prepare_of_no_call (r : Redirector) {d : MethodDef} {b : Body} (hd : m.method? t = some d)
    (hb : d.body = some b) (hcalls : ∀ i ∈ b.code, i.isCall = false) :
    (r.prepare m t).2 = .ok ⟨t, ⟨b.code, [], []⟩, reportOf t b ⟨b.code, [], []⟩⟩ := by
  have hsame := Module.redirectBody_of_no_call m (m.qualifiedName t) r.maxLocals hcalls
  exact prepare_eq_ok_iff.2 ⟨d, b, _, hd, hb, hsame, rfl⟩

namespace Applied

theorem body_of_mem (h : r.Applied m done m') (ht : t ∈ done) :
    ∃ d b, m'.method? t = some d ∧ d.body = some b ∧ ∀ i ∈ b.code, i.isCall = false := by
  obtain ⟨p, d, hp, hd, hd'⟩ := h.redirected t ht
  obtain ⟨d', b, x, hdd, hb, hx, hpx⟩ := prepare_eq_ok_iff.1 hp
  cases hd.symm.trans hdd
  rw [hb, hpx, Option.map_some] at hd'
  exact ⟨_, _, hd', rfl, Module.isCall_of_mem_redirectBody hx⟩

theorem prepare_of_notMem (h : r.Applied m done m') (ht : t ∉ done) {p : Prepared}
    (hp : (r.prepare m t).2 = .ok p) : (r.prepare m' t).2 = .ok p := by
  obtain ⟨d, b, x, hd, hb, hx, hpx⟩ := prepare_eq_ok_iff.1 hp
  have hother : m'.methods[t.position]? = m.methods[t.position]? := by
    refine h.other t.position fun u hu hpos => ht ?_
    rw [← MethodToken.eq_of_position_eq hpos]
    exact hu
  refine prepare_eq_ok_iff.2 ⟨d, b, x, ?_, hb, ?_, hpx⟩
  · exact hother.trans hd
  · rw [h.declares.qualifiedName, Module.redirectBody_congr h.declares.describe]
    exact hx

theorem prepare_of_mem (h : r.Applied m done m') (ht : t ∈ done) :
    ∃ p, (r.prepare m' t).2 = .ok p ∧ (Redirector.commit m' p).2 = m' := by
  obtain ⟨d, b, hd, hb, hcalls⟩ := h.body_of_mem ht
  exact ⟨_, prepare_of_no_call r hd hb hcalls, commit_of_no_call hd hb _⟩

theorem redirectMethod (h : r.Applied m done m') {p : Prepared}
    (hp : (r.prepare m t).2 = .ok p) :
    ∃ report, (r.redirectMethod m' t).result = .ok report ∧
      r.Applied m (t :: done) (r.redirectMethod m' t).module := by
  by_cases ht : t ∈ done
  · obtain ⟨q, hq, hcommit⟩ := h.prepare_of_mem ht
    obtain ⟨hresult, hmodule⟩ := redirectMethod_of_prepare hq
    refine ⟨q.report, hresult, ?_⟩
    rw [hmodule, hcommit]
    refine h.congr fun u => ?_
    constructor
    · intro hu
      obtain rfl | hu := List.mem_cons.1 hu
      · exact ht
      · exact hu
    · exact List.mem_cons_of_mem t
  · obtain ⟨hresult, hmodule⟩ := redirectMethod_of_prepare (h.prepare_of_notMem ht hp)
    refine ⟨p.report, hresult, ?_⟩
    rw [hmodule]
    exact h.commit hp ht

theorem inTurn (h : r.Applied m done m') (hts : ∀ t ∈ ts, ∃ p, (r.prepare m t).2 = .ok p) :
    ∃ m'', r.InTurn m' ts m'' ∧ r.Applied m (ts.reverse ++ done) m'' := by
  induction ts generalizing done m' with
  | nil => exact ⟨m', .nil, h⟩
  | cons t ts ih =>
    obtain ⟨⟨p, hp⟩, hts⟩ := List.forall_mem_cons.1 hts
    obtain ⟨report, hresult, hfirst⟩ := h.redirectMethod hp
    obtain ⟨m'', hlater, hall⟩ := ih hfirst hts
    refine ⟨m'', .cons hresult hlater, ?_⟩
    rw [List.reverse_cons, List.append_assoc]
    exact hall

end Applied

/-! ### Batches -/

theorem isCall_of_applied (hts : ∀ t d, m.method? t = some d → d.body.isSome = true → t ∈ ts)
    (hm : m.methods.length < 2 ^ 32) (h : r.Applied m ts m') :
    ∀ d ∈ m'.methods, ∀ b, d.body = some b → ∀ i ∈ b.code, i.isCall = false := by
  intro d' hd' b' hb'
  obtain ⟨k, hk⟩ := List.mem_iff_getElem?.1 hd'
  rcases h.getElem?_cases hk with ⟨hnone, hd⟩ | ⟨_, d, b, x, _, _, hx, rfl⟩
  · have hlt := (List.getElem?_eq_some_iff.1 hd).1
    have hposition : (MethodToken.ofPosition k).position = k :=
      MethodToken.position_ofPosition (Nat.lt_trans hlt hm)
    have hmem : MethodToken.ofPosition k ∈ ts := by
      refine hts _ d' ?_ (hb' ▸ rfl)
      rw [Module.method?, hposition]
      exact hd
    exact absurd hposition (hnone _ hmem)
  · cases hb'
    exact Module.isCall_of_mem_redirectBody hx

theorem pairwise_methodsWithBody (hm : m.methods.length < 2 ^ 32) :
    (methodsWithBody m).Pairwise fun t u => t.position < u.position := by
  have hplaces : (m.methods.zipIdx.map Prod.snd).Pairwise (· < ·) := by
    rw [List.zipIdx_map_snd]
    exact List.pairwise_lt_range' 1
  have hzip := (List.pairwise_map.1 hplaces).filter fun p => p.1.body.isSome
  have hposition : ∀ p ∈ m.methods.zipIdx.filter (·.1.body.isSome),
      (MethodToken.ofPosition p.2).position = p.2 := by
    intro p hp
    have hmem := (List.mem_filter.1 hp).1
    have hk := (List.getElem?_eq_some_iff.1 (List.mk_mem_zipIdx_iff_getElem?.1 hmem)).1
    exact MethodToken.position_ofPosition (Nat.lt_trans hk hm)
  unfold methodsWithBody
  rw [List.pairwise_map]
  refine hzip.imp_of_mem ?_
  intro p q hp hq hlt
  rw [hposition p hp, hposition q hq]
  exact hlt

theorem exists_report_iff_prepare :
    (∃ report, (r.redirectMethod m t).result = .ok report) ↔ ∃ p, (r.prepare m t).2 = .ok p := by
  constructor
  · intro ⟨report, h⟩
    obtain ⟨p, hp, _⟩ := redirectMethod_eq_ok_iff.1 h
    exact ⟨p, hp⟩
  · intro ⟨p, hp⟩
    exact ⟨p.report, (redirectMethod_of_prepare hp).1⟩

/-- Redirecting methods together is redirecting them one by one, in any order and any number of
times: it succeeds on a list exactly if it succeeds on each method of the list, gives the same
module and the same reports, and fails where the first of them fails. The request for all methods
is one for those with a body, and leaves no call behind. -/
theorem redirectMethods_eq_each (r : Redirector) {m : Module} (hm : m.methods.length < 2 ^ 32)
    (ts : List MethodToken) :
    ((∃ reports, (r.redirectMethods m ts).result = .ok reports) ↔
      ∀ t ∈ ts, ∃ report, (r.redirectMethod m t).result = .ok report) ∧
    (∀ reports, (r.redirectMethods m ts).result = .ok reports →
      List.Forall₂ (fun t report => (r.redirectMethod m t).result = .ok report) ts.eraseDups
        reports ∧
      ∀ us, (∀ t, t ∈ us ↔ t ∈ ts) → r.InTurn m us (r.redirectMethods m ts).module) ∧
    (∀ e, (r.redirectMethods m ts).result = .error e →
      (r.redirectMethods m ts).module = m ∧ ∃ front t back, ts = front ++ t :: back ∧
        (∀ u ∈ front, ∃ report, (r.redirectMethod m u).result = .ok report) ∧
        (r.redirectMethod m t).result = .error e) ∧
    (r.redirectAll m = r.redirectMethods m (methodsWithBody m) ∧
      (∀ t, t ∈ methodsWithBody m ↔ ∃ d, m.method? t = some d ∧ d.body.isSome = true) ∧
      (methodsWithBody m).Pairwise fun t u => t.position < u.position) ∧
    ∀ reports, (r.redirectAll m).result = .ok reports →
      ∀ d ∈ (r.redirectAll m).module.methods, ∀ b, d.body = some b →
        ∀ i ∈ b.code, i.isCall = false := by
  have hsome : ∀ reports, (r.redirectMethods m ts).result = .ok reports →
      ∀ t ∈ ts, ∃ p, (r.prepare m t).2 = .ok p := by
    intro reports h t ht
    obtain ⟨p, d, hp, _⟩ := (redirectMethods_eq_ok h).1.redirected t ht
    exact ⟨p, hp⟩
  refine ⟨⟨?_, ?_⟩, ?_, ?_, ⟨rfl, ?_, pairwise_methodsWithBody hm⟩, ?_⟩
  · intro ⟨reports, h⟩ t ht
    exact exists_report_iff_prepare.2 (hsome reports h t ht)
  · intro hall
    cases h : (r.redirectMethods m ts).result with
    | ok reports => exact ⟨reports, rfl⟩
    | error e =>
      obtain ⟨_, front, t, back, hts, _, ht⟩ := redirectMethods_eq_error h
      obtain ⟨report, hreport⟩ := hall t (by rw [hts]; simp)
      rw [redirectMethod_eq_error_iff.2 ht] at hreport
      cases hreport
  · intro reports h
    obtain ⟨happlied, ps, hreports, hmethods, hps⟩ := redirectMethods_eq_ok h
    constructor
    · rw [hreports, ← hmethods, List.forall₂_map_left_iff, List.forall₂_map_right_iff]
      exact List.forall₂_same.2 fun p hp => (redirectMethod_of_prepare (hps p hp)).1
    · intro us hus
      have heach : ∀ t ∈ us, ∃ p, (r.prepare m t).2 = .ok p :=
        fun t ht => hsome reports h t ((hus t).1 ht)
      obtain ⟨m', hturn, hall⟩ := Applied.nil.inTurn heach
      have hsame : r.Applied m ts m' := hall.congr fun t => by simp [hus]
      rw [happlied.unique hsame]
      exact hturn
  · intro e h
    obtain ⟨hm', front, t, back, hts, hfront, ht⟩ := redirectMethods_eq_error h
    refine ⟨hm', front, t, back, hts, ?_, redirectMethod_eq_error_iff.2 ht⟩
    intro u hu
    exact exists_report_iff_prepare.2 (hfront u hu)
  · intro t
    exact mem_methodsWithBody_iff hm
  · intro reports h
    have happlied := (redirectMethods_eq_ok h).1
    exact isCall_of_applied (fun t d hd hb => mem_methodsWithBody hd hb) hm happlied

/-- Two methods that call each other, and a method of the host. -/
def pingPong : Module where
  name := "game"
  types := [⟨"Game", [⟨0⟩, ⟨1⟩, ⟨2⟩]⟩]
  methods :=
    [⟨⟨0⟩, "score", ⟨[.int32], .void, true⟩, none⟩,
      ⟨⟨0⟩, "ping", ⟨[], .void, true⟩,
        some ⟨[], [.op (.ldcI4 1), .call (.direct ⟨0⟩), .call (.direct ⟨2⟩), .op .ret]⟩⟩,
      ⟨⟨0⟩, "pong", ⟨[], .void, true⟩, some ⟨[.int32], [.call (.direct ⟨1⟩), .op .ret]⟩⟩]

theorem redirectMethods_eq_each_pingPong :
    pingPong.methods.length < 2 ^ 32 ∧
      Redirector.standard.InTurn pingPong [⟨1⟩, ⟨2⟩, ⟨1⟩]
        (Redirector.standard.redirectMethods pingPong [⟨2⟩, ⟨1⟩, ⟨2⟩]).module := by
  have hm : pingPong.methods.length < 2 ^ 32 := by decide
  have hbatch := redirectMethods_eq_each Redirector.standard hm [⟨2⟩, ⟨1⟩, ⟨2⟩]
  have hreports : (Redirector.standard.redirectMethods pingPong [⟨2⟩, ⟨1⟩, ⟨2⟩]).result =
      .ok [⟨⟨2⟩, 1, 2, 2, 14⟩, ⟨⟨1⟩, 2, 5, 4, 34⟩] := rfl
  refine ⟨hm, (hbatch.2.1 _ hreports).2 [⟨1⟩, ⟨2⟩, ⟨1⟩] ?_⟩
  intro t
  simp only [List.mem_cons, List.not_mem_nil, or_false]
  tauto

end Redirector

end Interpose
