import SlotText.Proofs.LazyText.Remembered
import SlotText.Stream

/-!
# What streams hold

A program prints to its two streams in turn. What a call writes is settled before anything is
written, by the value, by the choice of colours and by the stream that the call is for, and no call
changes whether a stream is a terminal. So after any calls each stream holds what it held before and
then the outputs of the calls that were for it and did not fail.

A formatted text stands for a lazy text. Whatever else has been done with the lazy text and with its
renderer, each form that it gives is the one that the formatted text has.
-/
namespace SlotText

/-- A lazy text is written as the formatted text of its template, in whatever state it is. -/
theorem Stream.output_toValue {σ : LazyText.Session} {template : Template}
    (h : σ.Recalls template) (colors : Bool) :
    Stream.output template.toValue colors = (σ.text.form σ.renderer colors).outcome := by
  rw [h.form]
  cases colors <;> rfl

namespace Console

/-- One call that prints. -/
inductive Call where
  | printOut (v : Value) (colors : Option Bool)
  | println (v : Option Value) (colors : Option Bool)
  | eprint (v : Value) (colors : Option Bool)
  | eprintln (v : Option Value) (colors : Option Bool)

namespace Call

def target : Call → Target
  | printOut _ _ | println _ _ => .out
  | eprint _ _ | eprintln _ _ => .err

/-- A call without a value prints the empty text. -/
def value : Call → Value
  | printOut v _ | eprint v _ => v
  | println v _ | eprintln v _ => v.getD (.text [])

def newline : Call → Bool
  | printOut _ _ | eprint _ _ => false
  | println _ _ | eprintln _ _ => true

def colors : Call → Option Bool
  | printOut _ colors | println _ colors | eprint _ colors | eprintln _ colors => colors

/-- What a call writes to a stream that is a terminal, or is none or cannot tell. -/
def output (call : Call) (terminal : Option Bool) : Outcome Text :=
  let decorate : Prop := call.colors = some true ∨ call.colors = none ∧ terminal = some true
  let form := match call.value with
    | .formatted plain decorated => if decorate then decorated else plain
    | v => v.plain
  form.map (· ++ if call.newline then ['\n'] else [])

end Call

def stream (c : Console) : Target → Stream
  | .out => c.out
  | .err => c.err

def perform (c : Console) : Call → Outcome Console
  | .printOut v colors => c.printOut v colors
  | .println v colors => c.println v colors
  | .eprint v colors => c.eprint v colors
  | .eprintln v colors => c.eprintln v colors

/-- A call that fails is given up, and the next one follows. -/
def step (c : Console) (call : Call) : Console :=
  match c.perform call with
  | .ok c => c
  | .error _ => c

def after (c : Console) (calls : List Call) : Console := calls.foldl step c

/-- The outputs to a stream of the calls that do not fail, in order. -/
def outputs (calls : List Call) (target : Target) (terminal : Option Bool) : List Text :=
  (calls.filter fun call => call.target = target).filterMap fun call =>
    (call.output terminal).toOption

def write (c : Console) (target : Target) (s : Text) : Console :=
  match target with
  | .out => { c with out.written := c.out.written ++ s }
  | .err => { c with err.written := c.err.written ++ s }

variable {c : Console} {call : Call} {target target' : Target} {s : Text}

theorem stream_write_self (c : Console) (target : Target) (s : Text) :
    (c.write target s).stream target =
      { c.stream target with written := (c.stream target).written ++ s } := by
  cases target <;> rfl

theorem stream_write_of_ne (h : target' ≠ target) (c : Console) (s : Text) :
    (c.write target s).stream target' = c.stream target' := by
  cases target <;> cases target' <;> first | rfl | exact absurd rfl h

/-- The choice of colours, or else the stream, settles which form is written. -/
theorem Call.output_eq (call : Call) (x : Stream) : call.output x.terminal =
    (Stream.output call.value (call.colors.getD x.isTerminal)).map
      (· ++ if call.newline then ['\n'] else []) := by
  have hdecorate : call.colors.getD x.isTerminal = true ↔
      call.colors = some true ∨ call.colors = none ∧ x.terminal = some true := by
    cases call.colors with
    | some b => simp
    | none => cases hterminal : x.terminal <;> simp [Stream.isTerminal, hterminal]
  cases hvalue : call.value with
  | formatted plain decorated => simp only [output, hvalue, Stream.output, hdecorate]
  | _ => simp only [output, hvalue, Stream.output]

theorem perform_eq_print (c : Console) (call : Call) :
    c.perform call = c.print call.target call.value call.newline call.colors := by
  cases call <;> rfl

/-- What a call writes is settled by the stream that it is for. -/
theorem perform_eq (c : Console) (call : Call) : c.perform call =
    (call.output (c.stream call.target).terminal).map (c.write call.target) := by
  have hprint : ∀ x : Stream, x.print call.value call.newline call.colors =
      (call.output x.terminal).map fun s => { x with written := x.written ++ s } := by
    intro x
    rw [Call.output_eq, Stream.print]
    cases Stream.output call.value (call.colors.getD x.isTerminal) with
    | error e => rfl
    | ok s => exact congrArg (fun s => Except.ok { x with written := s }) (List.append_assoc _ _ _)
  rw [perform_eq_print]
  unfold print
  cases call.target with
  | out =>
      simp only [hprint, stream]
      cases call.output c.out.terminal <;> rfl
  | err =>
      simp only [hprint, stream]
      cases call.output c.err.terminal <;> rfl

/-- A call fails if its text cannot be rendered, and then nothing is written. -/
theorem step_cases (c : Console) (call : Call) :
    (∃ e, call.output (c.stream call.target).terminal = .error e ∧ c.perform call = .error e ∧
      c.step call = c) ∨
    ∃ s, call.output (c.stream call.target).terminal = .ok s ∧
      c.perform call = .ok (c.write call.target s) ∧ c.step call = c.write call.target s := by
  have hperform := perform_eq c call
  cases houtput : call.output (c.stream call.target).terminal with
  | error e =>
      rw [houtput] at hperform
      exact .inl ⟨e, rfl, hperform, by rw [step, hperform]; rfl⟩
  | ok s =>
      rw [houtput] at hperform
      exact .inr ⟨s, rfl, hperform, by rw [step, hperform]; rfl⟩

theorem stream_step_of_ne (h : target ≠ call.target) (c : Console) :
    (c.step call).stream target = c.stream target := by
  rcases step_cases c call with ⟨e, -, -, hstep⟩ | ⟨s, -, -, hstep⟩
  · rw [hstep]
  · rw [hstep, stream_write_of_ne h]

theorem outputs_of_ne (h : target ≠ call.target) (calls : List Call) (terminal : Option Bool) :
    outputs (call :: calls) target terminal = outputs calls target terminal := by
  rw [outputs, List.filter_cons_of_neg (by simpa using h.symm)]
  rfl

theorem outputs_self (call : Call) (calls : List Call) (terminal : Option Bool) :
    outputs (call :: calls) call.target terminal =
      (call.output terminal).toOption.toList ++ outputs calls call.target terminal := by
  rw [outputs, List.filter_cons_of_pos (by simp), List.filterMap_cons]
  cases call.output terminal <;> rfl

theorem written_after (c : Console) (calls : List Call) (target : Target) :
    (c.after calls).stream target = { c.stream target with
      written := (c.stream target).written ++
        (outputs calls target (c.stream target).terminal).flatten } := by
  induction calls generalizing c with
  | nil => exact congrArg (Stream.mk · _) (List.append_nil _).symm
  | cons call calls ih =>
      have hlater : c.after (call :: calls) = (c.step call).after calls := rfl
      rw [hlater, ih]
      by_cases htarget : target = call.target
      · subst htarget
        rw [outputs_self]
        rcases step_cases c call with ⟨e, houtput, -, hstep⟩ | ⟨s, houtput, -, hstep⟩
        · rw [hstep, houtput]
          rfl
        · rw [hstep, houtput, stream_write_self]
          exact congrArg (Stream.mk · _) (List.append_assoc _ _ _)
      · rw [outputs_of_ne htarget, stream_step_of_ne htarget]

theorem after_concat (c : Console) (calls : List Call) (call : Call) :
    c.after (calls ++ [call]) = (c.after calls).step call := List.foldl_concat _ _ _ _

theorem terminal_after (c : Console) (calls : List Call) (target : Target) :
    ((c.after calls).stream target).terminal = (c.stream target).terminal := by
  rw [written_after]

/-- After any calls, each stream holds what it held before and then, in order, the outputs of the
calls that were for it and did not fail. A call fails if and only if its text cannot be rendered in
the form that it is to be written in. It then leaves both streams as they are, and no call changes
the stream that it is not for. -/
theorem stream_after (c : Console) (calls : List Call) :
    (∀ target, (c.after calls).stream target = { c.stream target with
      written := (c.stream target).written ++
        (outputs calls target (c.stream target).terminal).flatten }) ∧
    ∀ call,
      (∀ e, (c.after calls).perform call = .error e ↔
        call.output (c.stream call.target).terminal = .error e) ∧
      (∀ e, (c.after calls).perform call = .error e → c.after (calls ++ [call]) = c.after calls) ∧
      ∀ target, target ≠ call.target →
        (c.after (calls ++ [call])).stream target = (c.after calls).stream target := by
  refine ⟨written_after c calls, fun call => ?_⟩
  rw [after_concat, ← terminal_after c calls]
  refine ⟨fun e => ?_, fun e he => ?_, fun target htarget => stream_step_of_ne htarget _⟩
  · rw [perform_eq]
    exact Outcome.map_eq_error_iff
  · rw [step, he]

/-- A terminal gets the decorated form unless the call forbids it; a form that cannot be rendered is
not written, and neither is the end of the line. -/
example :
    let v : Value := .formatted (.ok ['p']) (.error .numeralTooLong)
    let calls : List Call := [.println v none, .println v (some false), .eprint (.int 7) none,
      .eprintln v none]
    (Console.after ⟨{ terminal := some true }, {}⟩ calls) =
      ⟨{ written := ['p', '\n'], terminal := some true }, { written := ['7', 'p', '\n'] }⟩ := by
  decide +kernel

/-- Whatever has been printed, and whatever has been done with a lazy text and its renderer, a call
that prints the lazy text adds the form that the lazy text then gives. If it gives none, the stream
stays as it is. -/
theorem written_lazyText {r : Renderer} {colors caching : Bool} {capacity : Int}
    (hr : Renderer.make colors caching capacity = .ok r) (earlier : List Renderer.Call)
    (textHash : Text → Int) (template : Template) (steps : List LazyText.Step) (c : Console)
    (calls : List Call) {call : Call} (hcall : call.value = template.toValue) :
    let σ := LazyText.Session.after textHash ⟨{ template }, r.after earlier⟩ steps
    let decorate := call.colors.getD (c.stream call.target).isTerminal
    ((c.after (calls ++ [call])).stream call.target).written =
      ((c.after calls).stream call.target).written ++
        match (σ.text.form σ.renderer decorate).outcome with
        | .ok s => s ++ if call.newline then ['\n'] else []
        | .error _ => [] := by
  intro σ decorate
  have hnew := LazyText.Session.recalls_new ((Renderer.faithful_make hr).after earlier) template
  have hform := Stream.output_toValue (hnew.after textHash steps) decorate
  have houtput := Call.output_eq call ((c.after calls).stream call.target)
  rw [Stream.isTerminal, terminal_after, ← Stream.isTerminal, hcall, hform] at houtput
  rw [after_concat, step, perform_eq, terminal_after, houtput]
  cases (σ.text.form σ.renderer decorate).outcome with
  | error e => exact (List.append_nil _).symm
  | ok s => exact congrArg Stream.written (stream_write_self _ _ _)

end Console

end SlotText
