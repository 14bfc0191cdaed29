import HostScript.Proofs.Outcome
import HostScript.Sandbox

/-!
# What becomes of code in a sandbox

Whatever an engine answers, an execution has a value or a fault of one of two kinds, and the answer
alone decides which. The one way to get no execution at all is a budget that cannot be worked out:
a whole number of seconds that is beyond every finite fraction.
-/

namespace HostScript

namespace Json

/-- The values that count as false. -/
inductive IsFalsy : Json → Prop
  | null : IsFalsy .null
  | false : IsFalsy (.bool false)
  | int : IsFalsy (.int 0)
  | float {x : Float} (h : (x == 0) = true) : IsFalsy (.float x)
  | str : IsFalsy (.str [])
  | arr : IsFalsy (.arr [])
  | obj : IsFalsy (.obj [])

/-- A value counts as true unless it is one of those. -/
theorem truthy_eq_false_iff {v : Json} : v.truthy = false ↔ v.IsFalsy := by
  constructor
  · intro h
    cases v with
    | null => exact .null
    | bool b =>
      obtain rfl : b = false := h
      exact .false
    | int n =>
      obtain rfl : n = 0 := by simpa [truthy] using h
      exact .int
    | float x => exact .float (by simpa [truthy] using h)
    | str s =>
      obtain rfl : s = [] := by simpa [truthy] using h
      exact .str
    | arr xs =>
      obtain rfl : xs = [] := by simpa [truthy] using h
      exact .arr
    | obj ms =>
      obtain rfl : ms = [] := by simpa [truthy] using h
      exact .obj
  · intro h
    cases h with
    | float h => simp [truthy, h]
    | _ => rfl

theorem truthy_iff {v : Json} : v.truthy = true ↔ ¬ v.IsFalsy := by
  rw [← truthy_eq_false_iff, Bool.not_eq_false]

theorem eq_str_of_text? {v : Json} {s : Text} (h : v.text? = some s) : v = .str s := by
  cases v with
  | str t => exact congrArg Json.str (Option.some.inj h)
  | _ => cases h

theorem eq_arr_of_items? {v : Json} {xs : List Json} (h : v.items? = some xs) : v = .arr xs := by
  cases v with
  | arr ys => exact congrArg Json.arr (Option.some.inj h)
  | _ => cases h

end Json

namespace Sandbox

variable {a : EngineAnswer} {budget : Scalar} {l : Limits} {timeout : Option Scalar}

/-! ### Answers of an engine -/

/-- The value that a script evaluated to, where it is one. -/
def EngineAnswer.value? : EngineAnswer → Option Json
  | .returned text => (Json.read text).toOption
  | _ => none

/-- The answer reports that the code gave a value. -/
def EngineAnswer.Gives (a : EngineAnswer) (v : Json) : Prop :=
  ∃ o ok, a.value? = some o ∧ o.get? "ok" = some ok ∧ ¬ ok.IsFalsy ∧ o.get? "value" = some v

/-- The answer can be read and reports lines that were logged. -/
def EngineAnswer.Logs (a : EngineAnswer) (lines : List Json) : Prop :=
  ∃ o ok, a.value? = some o ∧ o.get? "ok" = some ok ∧
    (¬ ok.IsFalsy → ∃ v, o.get? "value" = some v) ∧ o.get? "logs" = some (.arr lines)

/-- An execution that says what an answer reports. -/
structure Reads (a : EngineAnswer) (e : Execution) : Prop where
  success_iff : e.success = true ↔ ∃ v, a.Gives v
  result : ∀ v, a.Gives v → e.outcome = .ok v
  timeout_iff : ∀ f, e.outcome = .error f → (f.kind? = some "timeout" ↔ a = .timedOut)
  execution_iff : ∀ f, e.outcome = .error f → (f.kind? = some "execution" ↔ a ≠ .timedOut)
  logs : ∀ lines, a.Logs lines → e.logs = lines.map Json.plain
  no_logs : (¬ ∃ lines, a.Logs lines) → e.logs = []

/-- An execution that failed on an answer that gives no value and can be read for no logs. -/
theorem reads_failed (ha : a ≠ .timedOut) (hgives : ∀ v, ¬ a.Gives v)
    (hlogs : ∀ lines, ¬ a.Logs lines) (message : Text) : Reads a (failed message) where
  success_iff := iff_of_false Bool.false_ne_true fun ⟨v, hv⟩ => hgives v hv
  result v hv := absurd hv (hgives v)
  timeout_iff f hf := by
    obtain rfl := Except.error.inj hf
    exact iff_of_false (by simp [Fault.kind?]) ha
  execution_iff f hf := by
    obtain rfl := Except.error.inj hf
    exact iff_of_true rfl ha
  logs lines h := absurd h (hlogs lines)
  no_logs _ := rfl

theorem logsOf_eq {o : Json} {lines : List Json} (h : o.get? "logs" = some (.arr lines)) :
    logsOf o = lines.map Json.plain := by
  rw [logsOf, h]

theorem logsOf_eq_nil {o : Json} (h : ∀ lines, o.get? "logs" ≠ some (.arr lines)) :
    logsOf o = [] := by
  unfold logsOf
  split
  · rename_i lines hlines
    exact absurd hlines (h lines)
  · rfl

/-- The outcome that a script evaluated to is read for its value, its fault and its logs. -/
theorem reads_readOutcome {o : Json} (ha : a.value? = some o) : Reads a (readOutcome o) := by
  have hvalue : ∀ o', a.value? = some o' → o' = o := fun o' h => Option.some.inj (h.symm.trans ha)
  have hne : a ≠ .timedOut := by
    rintro rfl
    cases ha
  -- without a verdict, or with one that promises a value which is not there
  have hunreadable (why : Text)
      (h : ∀ ok, o.get? "ok" = some ok → ¬ ok.IsFalsy ∧ o.get? "value" = none) :
      Reads a (unreadable why) := by
    refine reads_failed hne ?_ ?_ _
    · rintro v ⟨o', ok, ho, hok, -, hv⟩
      obtain rfl := hvalue o' ho
      rw [(h ok hok).2] at hv
      cases hv
    · rintro lines ⟨o', ok, ho, hok, hready, -⟩
      obtain rfl := hvalue o' ho
      obtain ⟨hfalsy, hnone⟩ := h ok hok
      obtain ⟨v, hv⟩ := hready hfalsy
      rw [hnone] at hv
      cases hv
  -- the logs count as soon as the verdict does
  have hlogs {ok : Json} (hok : o.get? "ok" = some ok)
      (hready : ¬ ok.IsFalsy → ∃ v, o.get? "value" = some v) :
      (∀ lines, a.Logs lines → logsOf o = lines.map Json.plain) ∧
        ((¬ ∃ lines, a.Logs lines) → logsOf o = []) := by
    constructor
    · rintro lines ⟨o', ok', ho, -, -, hlines⟩
      obtain rfl := hvalue o' ho
      exact logsOf_eq hlines
    · exact fun h => logsOf_eq_nil fun lines hlines => h ⟨lines, o, ok, ha, hok, hready, hlines⟩
  cases o with
  | obj ms =>
    rw [readOutcome]
    cases hok : (Json.obj ms).get? "ok" with
    | none => exact hunreadable _ fun ok h => by rw [hok] at h; cases h
    | some ok =>
      dsimp only
      cases htruthy : ok.truthy with
      | true =>
        have hfalsy := Json.truthy_iff.mp htruthy
        rw [if_pos rfl]
        cases hv : (Json.obj ms).get? "value" with
        | none =>
          refine hunreadable _ fun ok' h => ?_
          obtain rfl := Option.some.inj (hok.symm.trans h)
          exact ⟨hfalsy, hv⟩
        | some v =>
          obtain ⟨hlines, hnolines⟩ := hlogs hok fun _ => ⟨v, hv⟩
          refine ⟨iff_of_true rfl ⟨v, _, ok, ha, hok, hfalsy, hv⟩, ?_, nofun, nofun, hlines,
            hnolines⟩
          rintro v' ⟨o', ok', ho, -, -, hv'⟩
          obtain rfl := hvalue o' ho
          exact congrArg Except.ok (Option.some.inj (hv.symm.trans hv'))
      | false =>
        have hfalsy := Json.truthy_eq_false_iff.mp htruthy
        have hgives : ∀ v, ¬ a.Gives v := by
          rintro v ⟨o', ok', ho, hok', hnot, -⟩
          obtain rfl := hvalue o' ho
          obtain rfl := Option.some.inj (hok.symm.trans hok')
          exact hnot hfalsy
        obtain ⟨hlines, hnolines⟩ := hlogs hok (absurd hfalsy)
        rw [if_neg Bool.false_ne_true]
        refine ⟨iff_of_false Bool.false_ne_true fun ⟨v, hv⟩ => hgives v hv,
          fun v hv => absurd hv (hgives v), fun f hf => ?_, fun f hf => ?_, hlines, hnolines⟩
        · obtain rfl := Except.error.inj hf
          exact iff_of_false (by simp [Fault.kind?]) hne
        · obtain rfl := Except.error.inj hf
          exact iff_of_true rfl hne
  | _ => exact hunreadable _ nofun

/-- Every answer is read. -/
theorem reads_readAnswer (budget : Scalar) (a : EngineAnswer) : Reads a (readAnswer budget a) := by
  have hnone (h : a.value? = none) : (∀ v, ¬ a.Gives v) ∧ ∀ lines, ¬ a.Logs lines := by
    constructor
    · rintro v ⟨o, ok, ho, -⟩
      rw [h] at ho
      cases ho
    · rintro lines ⟨o, ok, ho, -⟩
      rw [h] at ho
      cases ho
  cases a with
  | timedOut =>
    obtain ⟨hgives, hlogs⟩ := hnone rfl
    refine ⟨iff_of_false Bool.false_ne_true fun ⟨v, hv⟩ => hgives v hv,
      fun v hv => absurd hv (hgives v), fun f hf => ?_, fun f hf => ?_,
      fun lines h => absurd h (hlogs lines), fun _ => rfl⟩
    · obtain rfl := Except.error.inj hf
      exact iff_of_true rfl rfl
    · obtain rfl := Except.error.inj hf
      exact iff_of_false (by simp [Fault.kind?]) (not_not_intro rfl)
  | threw message =>
    obtain ⟨hgives, hlogs⟩ := hnone rfl
    have hne : EngineAnswer.threw message ≠ .timedOut := nofun
    exact reads_failed hne hgives hlogs _
  | returned text =>
    cases hread : Json.read text with
    | ok o =>
      have hvalue : (EngineAnswer.returned text).value? = some o := by
        rw [EngineAnswer.value?, hread]
        rfl
      rw [readAnswer, hread]
      exact reads_readOutcome hvalue
    | error e =>
      have hvalue : (EngineAnswer.returned text).value? = none := by
        rw [EngineAnswer.value?, hread]
        rfl
      obtain ⟨hgives, hlogs⟩ := hnone hvalue
      have hne : EngineAnswer.returned text ≠ .timedOut := nofun
      rw [readAnswer, hread]
      exact reads_failed hne hgives hlogs _

/-! ### Budgets -/

/-- The time that code asks for, where the default stands for none and for what is not positive. -/
def Limits.asked (l : Limits) : Option Scalar → Scalar
  | some t => if (Scalar.int 0).lt t then t else if t.toFloat.isNaN then t else l.defaultTimeout
  | none => l.defaultTimeout

theorem asked_of_pos {t : Scalar} (h : (Scalar.int 0).lt t = true) : l.asked (some t) = t :=
  if_pos h

/-- The time that code asks for is a whole number beyond every finite fraction. -/
def Limits.Overflows (l : Limits) (timeout : Option Scalar) : Prop :=
  ∃ n, l.asked timeout = .int n ∧ (Number.ofInt n).isInf = true

theorem budget_eq (l : Limits) (timeout : Option Scalar) :
    l.budget timeout = (Json.ofScalar (l.asked timeout)).asFloat >>= fun seconds =>
      pure (Scalar.min (.float seconds) l.maxTimeout) := by
  cases timeout <;> rfl

theorem budget_of_overflows (h : l.Overflows timeout) : l.budget timeout = .error .tooLarge := by
  obtain ⟨n, hasked, hinf⟩ := h
  rw [budget_eq, hasked, Json.ofScalar, Json.asFloat]
  simp only [hinf, if_true]
  rfl

theorem exists_budget (h : ¬ l.Overflows timeout) : ∃ budget, l.budget timeout = .ok budget := by
  rw [budget_eq]
  cases hasked : l.asked timeout with
  | int n =>
    have hfinite : (Number.ofInt n).isInf = false := by
      rw [← Bool.not_eq_true]
      exact fun hinf => h ⟨n, hasked, hinf⟩
    rw [Json.ofScalar, Json.asFloat]
    simp only [hfinite, Bool.false_eq_true, if_false]
    exact ⟨_, rfl⟩
  | float x => exact ⟨_, rfl⟩

/-! ### Executions -/

/-- Code is executed, and the execution says what the engine answers within the budget, unless the
time that is asked for is a whole number beyond every finite fraction. -/
theorem execute_reads (l : Limits) (engine : Run → Id EngineAnswer) (code : Text) (input : Json)
    (timeout : Option Scalar) :
    (l.Overflows timeout → execute l engine code input timeout = .error .tooLarge) ∧
      (¬ l.Overflows timeout → ∃ budget e, l.budget timeout = .ok budget ∧
        execute l engine code input timeout = .ok e ∧
        Reads (engine ⟨script code input, budget⟩) e) := by
  constructor
  · intro h
    rw [execute, budget_of_overflows h]
    rfl
  · intro h
    obtain ⟨budget, hbudget⟩ := exists_budget h
    refine ⟨budget, _, hbudget, ?_, reads_readAnswer budget _⟩
    rw [execute, hbudget]
    rfl

/-- An engine for which every script evaluates to a text with one line of log. -/
def answering : Run → Id EngineAnswer := fun _ =>
  .returned "\x7b\x22ok\x22:true,\x22value\x22:\x22v\x22,\x22logs\x22:[\x22a\x22]\x7d".toList

/-- With the default time the text is the result, and the log is the one line. -/
theorem execute_answering : ∃ e, execute {} answering "return 1;".toList .null none = .ok e ∧
    e.success = true ∧ e.outcome = .ok (.str "v".toList) ∧ e.logs = ["a".toList] := by
  have hfinite : ¬ ({} : Limits).Overflows none := nofun
  obtain ⟨budget, e, -, he, hreads⟩ :=
    (execute_reads {} answering "return 1;".toList .null none).2 hfinite
  have hparts : (EngineAnswer.value? (answering ⟨[], .int 0⟩)).map (fun o =>
      ((o.get? "ok").map Json.truthy, (o.get? "value").bind Json.text?,
        ((o.get? "logs").bind Json.items?).map (·.map Json.text?))) =
      some (some true, some "v".toList, some [some "a".toList]) := by decide +kernel
  obtain ⟨o, ho, hparts⟩ := Option.map_eq_some_iff.mp hparts
  simp only [Prod.mk.injEq, Option.map_eq_some_iff, Option.bind_eq_some_iff] at hparts
  obtain ⟨⟨ok, hok, htruthy⟩, ⟨v, hv, htext⟩, ⟨lines, ⟨logs, hlogs, hitems⟩, hlines⟩⟩ := hparts
  obtain rfl := Json.eq_str_of_text? htext
  obtain rfl := Json.eq_arr_of_items? hitems
  obtain ⟨line, rfl, hline⟩ := List.map_eq_singleton_iff.mp hlines
  obtain rfl := Json.eq_str_of_text? hline
  have htrue := Json.truthy_iff.mp htruthy
  have hgives : EngineAnswer.Gives (answering ⟨script "return 1;".toList .null, budget⟩)
      (.str "v".toList) := ⟨o, ok, ho, hok, htrue, hv⟩
  refine ⟨e, he, hreads.success_iff.mpr ⟨_, hgives⟩, hreads.result _ hgives, ?_⟩
  rw [hreads.logs _ ⟨o, ok, ho, hok, fun _ => ⟨_, hv⟩, hlogs⟩]
  rfl

/-- Not every execution gives a result: a timeout of `10 ^ 400` seconds has no fraction that is
near it. -/
theorem execute_fails : ¬ ∀ (l : Limits) (engine : Run → Id EngineAnswer) (code : Text)
    (input : Json) (timeout : Option Scalar),
    ∃ e, execute l engine code input timeout = .ok e := by
  intro h
  obtain ⟨n, hpos, hinf⟩ : ∃ n : Int, 0 < n ∧ (Number.ofInt n).isInf = true :=
    ⟨10 ^ 400, Int.pow_pos (by decide), by decide +kernel⟩
  have hover : ({} : Limits).Overflows (some (.int n)) :=
    ⟨n, asked_of_pos (decide_eq_true hpos), hinf⟩
  obtain ⟨e, he⟩ := h {} answering "return 1;".toList .null (some (.int n))
  rw [execute, budget_of_overflows hover] at he
  cases he

end Sandbox

end HostScript
