import Interpose.Proofs.Interception.Batch
import Interpose.Proofs.Interception.Layout

/-!
# What a redirector leaves behind

A redirector is asked for one method by name, for one by its token, for several or for all
(`rewrite_named`, `rewrite_method`, `rewrite_methods`, `rewrite_all`). A task that is refused, or
that names what is not there, leaves the module as it was. Any other task changes the bodies it
reports on and nothing else, and its reports say how those bodies changed.
-/

namespace Interpose

/-- What a report on a method says about its body before and after. -/
structure Report.Describes (report : Report) (before after : Body) : Prop where
  locals : ∃ added, after.locals = before.locals ++ added ∧ report.localsAdded = added.length ∧
    ∀ t ∈ added, t = .object ∨ t = .objectArray
  callSites : report.callSites = before.callSites
  instructionsBefore : report.instructionsBefore = before.code.length
  instructionsAfter : report.instructionsAfter = after.code.length
  noCalls : after.callSites = 0

/-- A module in which the bodies of some methods changed as reported, and nothing else did. -/
structure Module.ChangedAs (m : Module) (reports : List Report) (m' : Module) : Prop where
  name : m'.name = m.name
  types : m'.types = m.types
  declarations : m'.methods.map MethodDef.declaration = m.methods.map MethodDef.declaration
  other (k : Nat) (hk : ∀ report ∈ reports, report.method.position ≠ k) :
    m'.methods[k]? = m.methods[k]?
  reported (report : Report) (h : report ∈ reports) : ∃ d b b', m.method? report.method = some d ∧
    d.body = some b ∧ m'.method? report.method = some { d with body := some b' } ∧
      report.Describes b b'

namespace Redirector

inductive Task where
  | named (typeName methodName : String)
  | method (t : MethodToken)
  | methods (ts : List MethodToken)
  | all

/-- The methods that a task is about. -/
def Task.methodsIn (m : Module) : Task → List MethodToken
  | .named typeName methodName =>
    ((m.findType? typeName).bind fun type => m.findMethod? type methodName).toList
  | .method t => [t]
  | .methods ts => ts
  | .all => methodsWithBody m

inductive Answer where
  | redirected (reports : List Report)
  | notFound (missing : Missing)
  deriving DecidableEq, Repr

def Answer.ofOutcome : Outcome → Answer
  | .redirected report => .redirected [report]
  | .notFound missing => .notFound missing

def answering {α : Type} (answer : α → Answer) (a : Attempt α) : Attempt Answer :=
  ⟨a.journal, a.module, a.result.map answer⟩

def perform (r : Redirector) (m : Module) : Task → Attempt Answer
  | .named typeName methodName => answering .ofOutcome (r.redirectNamed m typeName methodName)
  | .method t => answering (fun report => .redirected [report]) (r.redirectMethod m t)
  | .methods ts => answering .redirected (r.redirectMethods m ts)
  | .all => answering .redirected (r.redirectAll m)

variable {r : Redirector} {m m' : Module} {t : MethodToken} {ts : List MethodToken}

/-! ### How a task ends -/

/-- What is left behind for methods that could be prepared. -/
structure Delivers (r : Redirector) (m : Module) (ts : List MethodToken) (reports : List Report)
    (m' : Module) : Prop where
  applied : r.Applied m ts m'
  prepared : ∃ ps : List Prepared, reports = ps.map (·.report) ∧
    ps.map Prepared.method = ts.eraseDups ∧ ∀ p ∈ ps, (r.prepare m p.method).2 = .ok p

theorem redirectMethod_cases (r : Redirector) (m : Module) (t : MethodToken) :
    (∃ report, (r.redirectMethod m t).result = .ok report ∧
      r.Delivers m [t] [report] (r.redirectMethod m t).module) ∨
    ∃ e, (r.redirectMethod m t).result = .error e ∧ (r.redirectMethod m t).module = m := by
  cases hp : (r.prepare m t).2 with
  | error e => exact .inr ⟨e, redirectMethod_of_prepare_error hp⟩
  | ok p =>
    have hmethod := method_of_prepare hp
    have happlied : r.Applied m [t] (commit m p).2 := Applied.nil.commit hp List.not_mem_nil
    have hend := redirectMethod_of_prepare hp
    refine .inl ⟨p.report, hend.1, ?_, [p], rfl, ?_, ?_⟩
    · rw [hend.2]
      exact happlied
    · simp [hmethod, List.eraseDups_cons]
    · simp [hmethod, hp]

theorem redirectMethods_cases (r : Redirector) (m : Module) (ts : List MethodToken) :
    (∃ reports, (r.redirectMethods m ts).result = .ok reports ∧
      r.Delivers m ts reports (r.redirectMethods m ts).module) ∨
    ∃ e, (r.redirectMethods m ts).result = .error e ∧ (r.redirectMethods m ts).module = m := by
  cases h : (r.redirectMethods m ts).result with
  | error e => exact .inr ⟨e, rfl, (redirectMethods_eq_error h).1⟩
  | ok reports =>
    have hboth := redirectMethods_eq_ok h
    exact .inl ⟨reports, rfl, hboth.1, hboth.2⟩

theorem redirectNamed_cases (r : Redirector) (m : Module) (typeName methodName : String) :
    (∃ missing, (r.redirectNamed m typeName methodName).result = .ok (.notFound missing) ∧
      (r.redirectNamed m typeName methodName).module = m) ∨
    ∃ t, ((m.findType? typeName).bind fun type => m.findMethod? type methodName) = some t ∧
      (r.redirectNamed m typeName methodName).result =
        (r.redirectMethod m t).result.map Outcome.redirected ∧
      (r.redirectNamed m typeName methodName).module = (r.redirectMethod m t).module := by
  unfold redirectNamed
  cases m.findType? typeName with
  | none => exact .inl ⟨_, rfl, rfl⟩
  | some type =>
    simp only [Option.bind_some]
    cases m.findMethod? type methodName with
    | none => exact .inl ⟨_, rfl, rfl⟩
    | some t =>
      simp only
      split
      · exact .inl ⟨_, rfl, rfl⟩
      · exact .inr ⟨t, rfl, rfl, rfl⟩

/-- An attempt whose answers are reports delivers them, or it leaves the module as it was. -/
theorem answering_cases {α : Type} {a : Attempt α} {reportsOf : α → List Report}
    (h : (∃ x, a.result = .ok x ∧ r.Delivers m ts (reportsOf x) a.module) ∨
      ∃ e, a.result = .error e ∧ a.module = m) :
    let b := answering (fun x => .redirected (reportsOf x)) a
    (∃ reports, b.result = .ok (.redirected reports) ∧ r.Delivers m ts reports b.module) ∨
      (∀ reports, b.result ≠ .ok (.redirected reports)) ∧ b.module = m := by
  intro b
  rcases h with ⟨x, hresult, hdelivers⟩ | ⟨e, hresult, hm'⟩
  · refine .inl ⟨reportsOf x, ?_, hdelivers⟩
    simp only [b, answering, hresult, Except.map]
  · refine .inr ⟨fun reports hreports => ?_, hm'⟩
    simp only [b, answering, hresult, Except.map] at hreports
    cases hreports

/-- A task delivers what it was asked for, or it leaves the module as it was. -/
theorem perform_cases (r : Redirector) (m : Module) (task : Task) :
    (∃ reports, (r.perform m task).result = .ok (.redirected reports) ∧
      r.Delivers m (task.methodsIn m) reports (r.perform m task).module) ∨
    (∀ reports, (r.perform m task).result ≠ .ok (.redirected reports)) ∧
      (r.perform m task).module = m := by
  cases task with
  | named typeName methodName =>
    simp only [perform, answering, Task.methodsIn]
    rcases redirectNamed_cases r m typeName methodName with ⟨missing, hresult, hm'⟩ |
      ⟨t, ht, hresult, hm'⟩
    · rw [hresult]
      exact .inr ⟨fun _ h => (nomatch h), hm'⟩
    · have hmapped : (Except.map Outcome.redirected (r.redirectMethod m t).result).map .ofOutcome =
          (r.redirectMethod m t).result.map fun report => Answer.redirected [report] := by
        cases (r.redirectMethod m t).result <;> rfl
      rw [hresult, hm', ht, hmapped]
      exact answering_cases (redirectMethod_cases r m t)
  | method t => exact answering_cases (redirectMethod_cases r m t)
  | methods ts => exact answering_cases (redirectMethods_cases r m ts)
  | all => exact answering_cases (redirectMethods_cases r m (methodsWithBody m))

/-! ### What changed -/

theorem mem_slotTypesFor {i : Instr} {type : DataType} (h : type ∈ m.slotTypesFor i) :
    type = .object ∨ type = .objectArray := by
  unfold Module.slotTypesFor at h
  split at h
  · simp only [Callee.slotTypes, List.mem_cons, List.mem_append, List.mem_replicate,
      List.not_mem_nil, or_false] at h
    rcases h with h | ⟨_, h⟩ | h
    · exact .inl h
    · exact .inl h
    · exact .inr h
  · cases h

theorem describes_reportOf {method : String} {b : Body} {limit : Nat} {x : Redirected}
    (h : m.redirectBody method b limit = .ok x) (t : MethodToken) :
    (reportOf t b x).Describes b (x.commit b) := by
  obtain ⟨hcode, hlocals, hcalls⟩ := Module.redirectBody_parts h
  refine ⟨⟨x.newLocals, rfl, rfl, ?_⟩, hcalls, rfl, rfl, ?_⟩
  · intro type htype
    rw [hlocals] at htype
    obtain ⟨i, _, hi⟩ := List.mem_flatMap.1 htype
    exact mem_slotTypesFor hi
  · have hnone := Module.isCall_of_mem_redirectBody h
    refine List.countP_eq_zero.2 ?_
    intro i hi
    rw [hnone i hi]
    exact Bool.false_ne_true

theorem method_report_of_prepare {p : Prepared} (h : (r.prepare m t).2 = .ok p) :
    p.report.method = p.method := by
  obtain ⟨d, b, x, _, _, _, hp⟩ := prepare_eq_ok_iff.1 h
  rw [hp]
  rfl

theorem Delivers.map_method {reports : List Report} (h : r.Delivers m ts reports m') :
    reports.map (·.method) = ts.eraseDups := by
  obtain ⟨ps, hreports, hmethods, hps⟩ := h.prepared
  rw [hreports, List.map_map, ← hmethods]
  apply List.map_congr_left
  intro p hp
  exact method_report_of_prepare (hps p hp)

theorem Delivers.changedAs {reports : List Report} (h : r.Delivers m ts reports m') :
    m.ChangedAs reports m' := by
  obtain ⟨ps, hreports, hmethods, hps⟩ := h.prepared
  have hreport : ∀ p ∈ ps, p.report.method = p.method :=
    fun p hp => method_report_of_prepare (hps p hp)
  refine ⟨h.applied.name, h.applied.declares.types, h.applied.declares.methods, ?_, ?_⟩
  · intro k hk
    refine h.applied.other k ?_
    intro t ht hpos
    have hmem : t ∈ ps.map Prepared.method := by
      rw [hmethods]
      exact List.mem_eraseDups.2 ht
    obtain ⟨p, hp, hpt⟩ := List.mem_map.1 hmem
    refine hk p.report ?_ ?_
    · rw [hreports]
      exact List.mem_map_of_mem hp
    · rw [hreport p hp, hpt]
      exact hpos
  · intro report hmem
    rw [hreports] at hmem
    obtain ⟨p, hp, hpr⟩ := List.mem_map.1 hmem
    have hts : p.method ∈ ts := by
      have hmap := List.mem_map_of_mem (f := Prepared.method) hp
      rw [hmethods] at hmap
      exact List.mem_eraseDups.1 hmap
    obtain ⟨q, d, hq, hd, hafter⟩ := h.applied.redirected p.method hts
    cases (hps p hp).symm.trans hq
    obtain ⟨d', b, x, hd', hb, hx, hpx⟩ := prepare_eq_ok_iff.1 hq
    cases hd.symm.trans hd'
    rw [← hpr, hreport p hp]
    refine ⟨d, b, x.commit b, hd, hb, ?_, ?_⟩
    · rw [hafter, hb, hpx]
      rfl
    · have hdescribes := describes_reportOf hx p.method
      rw [hpx]
      exact hdescribes

/-- Whatever a redirector is asked for, either nothing of the module changes, or what its reports
say. -/
theorem perform_leaves (r : Redirector) (m : Module) (task : Task) :
    match (r.perform m task).result with
    | .error _ => (r.perform m task).module = m
    | .ok (.notFound _) => (r.perform m task).module = m
    | .ok (.redirected reports) =>
      m.ChangedAs reports (r.perform m task).module ∧
        reports.map (·.method) = (task.methodsIn m).eraseDups := by
  rcases perform_cases r m task with ⟨reports, hresult, hdelivers⟩ | ⟨hnone, hm'⟩
  · rw [hresult]
    exact ⟨hdelivers.changedAs, hdelivers.map_method⟩
  · split
    · exact hm'
    · exact hm'
    · rename_i reports hresult
      exact absurd hresult (hnone reports)

end Redirector

end Interpose
