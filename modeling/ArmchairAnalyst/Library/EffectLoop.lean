import ArmchairAnalyst.Library.TransitionSystem

/-!
# Effect loops

A core takes inputs from a channel and hands out effects. Workers execute the effects and
send what they are answered with, one input after the other, while others feed inputs of
their own. The workers, the feeds and the core interleave in any order.
-/

namespace ArmchairAnalyst

/-- The state of a core with everything that is between it and its workers. -/
structure EffectLoop (State Input Effect : Type) where
  state : State
  executing : List Effect
  /-- The inputs that each worker has still to send. -/
  sending : List (List Input)
  channel : List Input

namespace EffectLoop

variable {State Input Effect : Type}

def queued (loop : EffectLoop State Input Effect) : List Input :=
  loop.sending.flatten ++ loop.channel

variable (step : State → Input → State × List Effect) (answers : Effect → List Input → Prop)
  (feeds : Input → Prop)

/-- One step of the loop, with the input that the core takes in it. -/
inductive Step : EffectLoop State Input Effect → Option Input → EffectLoop State Input Effect → Prop
  | receive {state executing sending input channel} :
    Step ⟨state, executing, sending, input :: channel⟩ (some input)
      ⟨(step state input).1, executing ++ (step state input).2, sending, channel⟩
  | execute {state before effect after sending channel inputs} :
    answers effect inputs →
    Step ⟨state, before ++ effect :: after, sending, channel⟩ none
      ⟨state, before ++ after, inputs :: sending, channel⟩
  | send {state executing before input inputs after channel} :
    Step ⟨state, executing, before ++ (input :: inputs) :: after, channel⟩ none
      ⟨state, executing, before ++ inputs :: after, channel ++ [input]⟩
  | feed {state executing sending channel input} :
    feeds input →
    Step ⟨state, executing, sending, channel⟩ none
      ⟨state, executing, sending, channel ++ [input]⟩

inductive Reached (start : State × List Effect) :
    List Input → EffectLoop State Input Effect → Prop
  | start : Reached start [] ⟨start.1, start.2, [], []⟩
  | step {taken loop input loop'} :
    Reached start taken loop → Step step answers feeds loop input loop' →
    Reached start (taken ++ input.toList) loop'

variable {step answers feeds} {start : State × List Effect} {taken : List Input}
  {loop : EffectLoop State Input Effect}

theorem Reached.run (reached : Reached step answers feeds start taken loop) :
    loop.state = (ArmchairAnalyst.run step start.1 taken).1 := by
  induction reached with
  | start => rfl
  | step _ stepped inductionHypothesis =>
    cases stepped with
    | receive =>
      simp only at inductionHypothesis
      rw [Option.toList_some, run_append, ← inductionHypothesis]
      rfl
    | execute answered => simpa using inductionHypothesis
    | send => simpa using inductionHypothesis
    | feed fed => simpa using inductionHypothesis

theorem Reached.deliver {state : State} {effect : Effect} {sending : List (List Input)}
    (reached : Reached step answers feeds start taken ⟨state, [effect], sending, []⟩) {input : Input}
    (answered : answers effect [input]) :
    Reached step answers feeds start taken ⟨state, [], [] :: sending, [input]⟩ := by
  have execute : Step step answers feeds ⟨state, [] ++ effect :: [], sending, []⟩ none
      ⟨state, [], [input] :: sending, []⟩ := .execute answered
  have send : Step step answers feeds ⟨state, [], [] ++ [input] :: sending, []⟩ none
      ⟨state, [], [] :: sending, [input]⟩ := .send
  have sent := (reached.step execute).step send
  simp only [Option.toList_none, List.append_nil] at sent
  exact sent

/-! ### Nothing awaited is lost -/

section Awaiting

variable {Awaited : Type} (waits : State → Awaited → Prop) (carries : Effect → Awaited → Prop)
  (settles : Input → Awaited → Prop)

/-- What a state waits for is brought by an effect, handed out with or before that state,
and an input that settles it ends the wait. -/
structure Accounted (step : State → Input → State × List Effect)
    (answers : Effect → List Input → Prop) (start : State × List Effect) : Prop where
  start : ∀ awaited, waits start.1 awaited → ∃ effect ∈ start.2, carries effect awaited
  step : ∀ state input awaited, waits (step state input).1 awaited →
    (waits state awaited ∧ ¬ settles input awaited) ∨
      ∃ effect ∈ (step state input).2, carries effect awaited
  answer : ∀ effect inputs awaited, carries effect awaited → answers effect inputs →
    ∃ input ∈ inputs, settles input awaited

variable {waits carries settles}

/-- What the core waits for is being executed, or is on its way. -/
theorem Reached.outstanding (accounted : Accounted waits carries settles step answers start)
    (reached : Reached step answers feeds start taken loop) {awaited : Awaited}
    (awaits : waits loop.state awaited) :
    (∃ effect ∈ loop.executing, carries effect awaited) ∨
      ∃ input ∈ loop.queued, settles input awaited := by
  induction reached with
  | start => exact .inl (accounted.start awaited awaits)
  | step _ stepped inductionHypothesis =>
    cases stepped with
    | @receive state executing sending input channel =>
      rcases accounted.step state input awaited awaits with ⟨before, unsettled⟩ | ⟨effect, now, carried⟩
      · rcases inductionHypothesis before with ⟨effect, executed, carried⟩ | ⟨settling, queued, settled⟩
        · exact .inl ⟨effect, List.mem_append_left _ executed, carried⟩
        · refine .inr ⟨settling, ?_, settled⟩
          rcases List.mem_append.mp queued with sent | arrived
          · exact List.mem_append_left _ sent
          · rcases List.mem_cons.mp arrived with rfl | waiting
            · exact absurd settled unsettled
            · exact List.mem_append_right _ waiting
      · exact .inl ⟨effect, List.mem_append_right _ now, carried⟩
    | @execute state before effect after sending channel inputs answered =>
      rcases inductionHypothesis awaits with ⟨other, executed, carried⟩ | ⟨settling, queued, settled⟩
      · by_cases done : other = effect
        · subst done
          obtain ⟨input, answering, settled⟩ := accounted.answer other inputs awaited carried answered
          exact .inr ⟨input, by simp [EffectLoop.queued, answering], settled⟩
        · refine .inl ⟨other, ?_, carried⟩
          simp only [List.mem_append, List.mem_cons, done, false_or] at executed ⊢
          exact executed
      · refine .inr ⟨settling, ?_, settled⟩
        simp only [EffectLoop.queued, List.flatten_cons, List.mem_append] at queued ⊢
        exact queued.imp_left .inr
    | send =>
      refine (inductionHypothesis awaits).imp_right ?_
      rintro ⟨settling, queued, settled⟩
      refine ⟨settling, ?_, settled⟩
      simp only [EffectLoop.queued, List.flatten_append, List.flatten_cons, List.mem_append,
        List.mem_cons, List.not_mem_nil, or_false] at queued ⊢
      tauto
    | feed fed =>
      refine (inductionHypothesis awaits).imp_right ?_
      rintro ⟨settling, queued, settled⟩
      refine ⟨settling, ?_, settled⟩
      simp only [EffectLoop.queued, List.mem_append] at queued ⊢
      exact queued.imp_right .inl

end Awaiting

/-! ### Nothing is answered twice -/

section Tags

variable {Tag : Type} (ofEffect : Effect → List Tag) (ofInput : Input → List Tag)

/-- The answers to an effect carry its tags, and nothing else that is fed carries any. -/
structure Tagged (answers : Effect → List Input → Prop) (feeds : Input → Prop) : Prop where
  answer : ∀ effect inputs, answers effect inputs →
    (inputs.flatMap ofInput).Perm (ofEffect effect)
  feed : ∀ input, feeds input → ofInput input = []

variable {ofEffect ofInput}

/-- Every tag that was handed out is being executed, on its way or taken, and every one of
these was handed out. -/
theorem Reached.conserves (tagged : Tagged ofEffect ofInput answers feeds)
    (reached : Reached step answers feeds start taken loop) :
    ((start.2 ++ (ArmchairAnalyst.run step start.1 taken).2).flatMap ofEffect).Perm
      (loop.executing.flatMap ofEffect ++ loop.queued.flatMap ofInput ++ taken.flatMap ofInput) := by
  rw [← Multiset.coe_eq_coe]
  induction reached with
  | start => simp [ArmchairAnalyst.run, queued]
  | step reached stepped inductionHypothesis =>
    cases stepped with
    | @receive state executing sending input channel =>
      have here := reached.run
      simp only at here
      rw [Option.toList_some, run_append, ← here]
      simp only [ArmchairAnalyst.run, List.append_nil, List.flatMap_append, queued,
        List.flatMap_cons, List.flatMap_nil, ← Multiset.coe_add] at inductionHypothesis ⊢
      rw [← add_assoc, inductionHypothesis]
      abel
    | @execute state before effect after sending channel inputs answered =>
      have same := Multiset.coe_eq_coe.mpr (tagged.answer effect inputs answered)
      simp only [Option.toList_none, List.append_nil, List.flatMap_append, queued,
        List.flatMap_cons, List.flatten_cons, ← Multiset.coe_add] at inductionHypothesis ⊢
      rw [inductionHypothesis, same]
      abel
    | send =>
      simp only [Option.toList_none, List.append_nil, List.flatMap_append, queued,
        List.flatMap_cons, List.flatMap_nil, List.flatten_append, List.flatten_cons,
        ← Multiset.coe_add] at inductionHypothesis ⊢
      rw [inductionHypothesis]
      abel
    | @feed state executing sending channel input fed =>
      simp only [Option.toList_none, List.append_nil, List.flatMap_append, queued,
        List.flatMap_cons, List.flatMap_nil, tagged.feed input fed] at inductionHypothesis ⊢
      exact inductionHypothesis

end Tags

end EffectLoop

end ArmchairAnalyst
