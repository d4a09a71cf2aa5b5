import River.Proofs.Outline.Walked
import River.Proofs.Source.Table
import River.Session

/-! What a run reports. However often and whenever the environment is asked, tracing is on exactly
from the start or from where it is switched on; each step that is traced reports once, in order, and
nothing else depends on tracing. -/
namespace River.Session

/-- Before the environment has been asked, tracing is on if it was switched on; afterwards also if
the environment wants it. -/
structure Tracing.Follows (wanted started : Bool) (t : Tracing) : Prop where
  unasked : t.asked = false → t.on = started
  asked : t.asked = true → t.on = (wanted || started)

namespace Tracing.Follows

variable {wanted started : Bool} {t : Tracing}

theorem start (wanted : Bool) : Tracing.start.Follows wanted false :=
  ⟨fun _ => rfl, nofun⟩

theorem settle_on (follows : t.Follows wanted started) :
    (t.settle wanted).on = (wanted || started) := by
  unfold settle
  split
  · next asked => exact follows.asked asked
  · next unasked => rw [follows.unasked (Bool.eq_false_iff.mpr unasked), Bool.or_comm]

theorem settle (follows : t.Follows wanted started) : (t.settle wanted).Follows wanted started := by
  refine ⟨fun unasked => ?_, fun _ => follows.settle_on⟩
  unfold Tracing.settle at unasked
  split at unasked
  · next asked => exact absurd asked (Bool.eq_false_iff.mp unasked)
  · cases unasked

theorem switchOn (wanted : Bool) (t : Tracing) : t.switchOn.Follows wanted true :=
  ⟨fun _ => rfl, fun _ => (Bool.or_true wanted).symm⟩

end Tracing.Follows

/-- A step answers and reports as tracing stands, and takes note of being switched on. -/
theorem Step.perform_eq {t : Tracing} (follows : t.Follows wanted started) (step : Step) :
    ∃ t', step.perform wanted t = (step.result (wanted || started),
        if wanted || started then step.trace? else none, t') ∧
      t'.Follows wanted (started || step.startsTracing) := by
  have settled := follows.settle
  have on := follows.settle_on
  cases step with
  | startTracing =>
    refine ⟨t.switchOn, ?_, ?_⟩
    · simp [perform, result, trace?]
    · rw [startsTracing, Bool.or_true]
      exact .switchOn wanted t
  | _ =>
    refine ⟨t.settle wanted, ?_, ?_⟩
    · simp only [perform, on]
    · exact (Bool.or_false started).symm ▸ settled

/-- The steps, each behind those that come before it. -/
def histories (steps : List Step) : List (List Step × Step) := steps.inits.zip steps

theorem histories_cons (step : Step) (steps : List Step) : histories (step :: steps) =
    ([], step) :: (histories steps).map fun h => (step :: h.1, h.2) := by
  rw [histories, List.inits, List.zip_cons_cons, List.zip_map_left]
  rfl

theorem length_histories (steps : List Step) : (histories steps).length = steps.length := by
  induction steps with
  | nil => rfl
  | cons step steps ih =>
    rw [histories_cons, List.length_cons, List.length_map, ih, List.length_cons]

/-- Tracing is on after some steps if the environment wants it or one of them switched it on. -/
def tracingAfter (wanted : Bool) (before : List Step) : Bool :=
  wanted || before.any Step.startsTracing

theorem tracingAfter_iff : tracingAfter wanted before = true ↔
    wanted = true ∨ Step.startTracing ∈ before := by
  have starts (step : Step) : step.startsTracing = true ↔ step = .startTracing := by
    cases step <;> simp [Step.startsTracing]
  simp [tracingAfter, starts]

theorem runFrom_eq {t : Tracing} (follows : t.Follows wanted started) (steps : List Step) :
    runFrom wanted t steps =
      ((histories steps).map fun h => h.2.result (tracingAfter (wanted || started) h.1),
        (histories steps).filterMap fun h =>
          if tracingAfter (wanted || started) h.1 then h.2.trace? else none) := by
  induction steps generalizing t started with
  | nil => rfl
  | cons step steps ih =>
    obtain ⟨t', performed, follows⟩ := step.perform_eq follows
    have later (before : List Step) :
        tracingAfter (wanted || (started || step.startsTracing)) before =
          tracingAfter (wanted || started) (step :: before) := by
      simp only [tracingAfter, List.any_cons, Bool.or_assoc]
    have first : tracingAfter (wanted || started) [] = (wanted || started) := Bool.or_false _
    rw [runFrom, performed, histories_cons]
    simp only [ih follows, later, List.map_cons, List.filterMap_cons, List.map_map,
      List.filterMap_map, Function.comp_def, first]
    cases (if (wanted || started) = true then step.trace? else none) <;> rfl

def Step.reports : Step → Bool
  | .index .. | .outline .. | .toJson _ => true
  | .isTracing | .startTracing => false

/-- What a step reports: the lines and bytes of a text, the nodes that an outline shows, the bytes of
the text that was written. -/
inductive Step.Reports : Step → String → Prop where
  | index : (Step.index name text).Reports
      ("source: indexed " ++ (1 + text.toList.count '\n').repr ++ " line(s) in '" ++ name ++ "' ("
        ++ (Text.utf8 text.toList).length.repr ++ " bytes)")
  | outline : (Step.outline n style colorAllowed).Reports
      ("dump: rendered " ++
        (n.visits.filter (Visit.shown style.comments)).length.repr ++ " node(s)")
  | toJson : (Step.toJson f).Reports
      ("dump: serialized '" ++ f.name ++ "' (" ++
        (Text.utf8 f.toJson.toList).length.repr ++ " bytes)")

theorem nodeCount_shown (n : Node) (style : Outline.Style) (colorAllowed : Bool) :
    Outline.nodeCount style colorAllowed n =
      (n.visits.filter (Visit.shown style.comments)).length := by
  rw [Outline.nodeCount_eq, Outline.entries_of_visits, Outline.countP_visitEntries]

theorem Step.reports_trace? (step : Step) (reports : step.reports = true) :
    ∃ message, step.trace? = some message ∧ step.Reports message := by
  cases step with
  | index name text =>
    refine ⟨_, rfl, ?_⟩
    rw [SourceFile.lineCount_index, ← Text.length_utf8_toList]
    exact .index
  | outline n style colorAllowed =>
    refine ⟨_, rfl, ?_⟩
    rw [nodeCount_shown]
    exact .outline
  | toJson f =>
    refine ⟨_, rfl, ?_⟩
    rw [← Text.length_utf8_toList]
    exact .toJson
  | isTracing | startTracing => cases reports

theorem Step.trace?_eq_none {step : Step} (silent : step.reports = false) : step.trace? = none := by
  cases step with
  | isTracing | startTracing => rfl
  | index | outline | toJson => cases silent

/-- The steps that are traced: those that report while tracing is on. -/
def traced (wanted : Bool) (steps : List Step) : List Step :=
  ((histories steps).filter fun h => tracingAfter wanted h.1 && h.2.reports).map Prod.snd

theorem traces_of_traced (wanted : Bool) (hs : List (List Step × Step)) :
    List.Forall₂ Step.Reports
      ((hs.filter fun h => tracingAfter wanted h.1 && h.2.reports).map Prod.snd)
      (hs.filterMap fun h => if tracingAfter wanted h.1 then h.2.trace? else none) := by
  induction hs with
  | nil => exact .nil
  | cons h hs ih =>
    by_cases on : tracingAfter wanted h.1 = true
    · cases reports : h.2.reports with
      | true =>
        obtain ⟨message, trace, told⟩ := h.2.reports_trace? reports
        simp only [List.filter_cons, List.filterMap_cons, on, reports, trace, Bool.and_self, if_true,
          List.map_cons]
        exact .cons told ih
      | false =>
        simpa [List.filter_cons, on, reports, Step.trace?_eq_none reports] using ih
    · simpa [List.filter_cons, on] using ih

theorem Step.result_eq {step : Step} (other : step ≠ .isTracing) (tracing : Bool) :
    step.result tracing = step.result false := by
  cases step with
  | isTracing => exact absurd rfl other
  | _ => rfl

theorem histories_append (before after : List Step) (step : Step) :
    (histories (before ++ step :: after))[before.length]? = some (before, step) := by
  induction before with
  | nil => rw [List.nil_append, histories_cons]; rfl
  | cons first before ih =>
    rw [List.cons_append, histories_cons, List.length_cons, List.getElem?_cons_succ,
      List.getElem?_map, ih]
    rfl

/-- In any run tracing is told to be on exactly if the environment wants it or it was switched on
before; all other answers are those without tracing. The traces are the reports of the steps that are
traced, each on its line. -/
theorem run_traced (wanted : Bool) (steps : List Step) :
    (run wanted steps).1.length = steps.length ∧
    (∀ before step after, steps = before ++ step :: after →
      (step = .isTracing → ∃ on, (run wanted steps).1[before.length]? = some (.flag on) ∧
        (on = true ↔ wanted = true ∨ .startTracing ∈ before)) ∧
      (step ≠ .isTracing → (run wanted steps).1[before.length]? = some (step.result false))) ∧
    ∃ messages, List.Forall₂ Step.Reports (traced wanted steps) messages ∧
      traceText (run wanted steps).2 = String.join (messages.map (· ++ "\n")) := by
  have all := runFrom_eq (.start wanted) steps
  rw [Bool.or_false] at all
  refine ⟨?_, fun before step after split => ?_, _, traces_of_traced wanted (histories steps), ?_⟩
  · rw [run, all, List.length_map, length_histories]
  · have result : (run wanted steps).1[before.length]? =
        some (step.result (tracingAfter wanted before)) := by
      rw [run, all, List.getElem?_map, split, histories_append]
      rfl
    constructor
    · rintro rfl
      exact ⟨_, result, tracingAfter_iff⟩
    · intro other
      rw [result, Step.result_eq other]
  · rw [run, all, traceText]

/-- Tracing is switched on after the environment has been asked for it in vain. -/
def lateSteps : List Step :=
  [.isTracing, .startTracing, .index "a" "é\n", .outline Outline.nestedObjects {} true, .isTracing]

theorem run_lateSteps :
    (lateSteps = lateSteps.take 4 ++ .isTracing :: [] ∧ .startTracing ∈ lateSteps.take 4) ∧
    (run false lateSteps).1[4]? = some (.flag true) ∧
    ∃ messages, List.Forall₂ Step.Reports (traced false lateSteps) messages ∧
      traceText (run false lateSteps).2 = String.join (messages.map (· ++ "\n")) := by
  obtain ⟨-, each, traces⟩ := run_traced false lateSteps
  have switched : Step.startTracing ∈ lateSteps.take 4 := .tail _ (.head _)
  obtain ⟨on, answer, told⟩ := (each (lateSteps.take 4) .isTracing [] rfl).1 rfl
  rw [told.mpr (.inr switched)] at answer
  exact ⟨⟨rfl, switched⟩, answer, traces⟩

end River.Session
