import Restyle.Proofs.Activity.Failing

/-!
# Activities that end alike

Two sessions with the same workspace and setting may still differ in the log, in
what has been shown and in the answers to come.  From such sessions an activity
imitates another when both return, with related results, or both fail for the same
reason, and when the sessions in which they end again have the same workspace and
setting.  An activity that imitates itself is steady: it does not depend on what
such sessions differ in.
-/

namespace Restyle

namespace Session.Quiet

theorem symm {before after : Session} (quiet : before.Quiet after) : after.Quiet before where
  project := quiet.project.symm
  temporaryTag := quiet.temporaryTag.symm
  trouble := quiet.trouble.symm
  now := quiet.now.symm
  workspace := quiet.workspace.symm

end Session.Quiet

namespace Activity

variable {α β γ δ : Type} {related : α → β → Prop} {session other : Session}

/-- Two ends of activities that are alike. -/
inductive EndAlike (related : α → β → Prop) :
    EStateM.Result Failure Session α → EStateM.Result Failure Session β → Prop where
  | ok {first : α} {second : β} {before after : Session} :
      related first second → before.Quiet after → EndAlike related (.ok first before) (.ok second after)
  | error {failure : Failure} {before after : Session} :
      before.Quiet after → EndAlike related (.error failure before) (.error failure after)

/-- An activity that ends like another one. -/
def Imitates (related : α → β → Prop) (first : Activity α) (second : Activity β) : Prop :=
  ∀ session other, session.Quiet other → EndAlike related (first session) (second other)

/-- An activity that looks at the workspace and the setting only. -/
def IsSteady (body : Activity α) : Prop :=
  Imitates Eq body body

theorem EndAlike.ok_of {first : α} {before : Session} {second : EStateM.Result Failure Session β}
    (alike : EndAlike related (.ok first before) second) :
    ∃ result after, second = .ok result after ∧ related first result ∧ before.Quiet after := by
  cases alike with
  | ok same quiet => exact ⟨_, _, rfl, same, quiet⟩

theorem EndAlike.error_of {failure : Failure} {before : Session}
    {second : EStateM.Result Failure Session β}
    (alike : EndAlike related (.error failure before) second) :
    ∃ after, second = .error failure after ∧ before.Quiet after := by
  cases alike with
  | error quiet => exact ⟨_, rfl, quiet⟩

theorem EndAlike.bind {later : γ → δ → Prop} {first : Activity α} {second : Activity β}
    {next : α → Activity γ} {following : β → Activity δ}
    (begun : EndAlike related (first session) (second other))
    (goesOn : ∀ left right, related left right → Imitates later (next left) (following right)) :
    EndAlike later ((first >>= next) session) ((second >>= following) other) := by
  cases ran : first session with
  | ok left before =>
      rw [ran] at begun
      obtain ⟨right, after, returned, same, still⟩ := begun.ok_of
      rw [bind_of_ok ran, bind_of_ok returned]
      exact goesOn left right same before after still
  | error failure before =>
      rw [ran] at begun
      obtain ⟨after, stopped, still⟩ := begun.error_of
      rw [bind_of_error ran, bind_of_error stopped]
      exact .error still

theorem Imitates.bind {later : γ → δ → Prop} {first : Activity α} {second : Activity β}
    {next : α → Activity γ} {following : β → Activity δ} (begins : Imitates related first second)
    (goesOn : ∀ left right, related left right → Imitates later (next left) (following right)) :
    Imitates later (first >>= next) (second >>= following) :=
  fun session other quiet => (begins session other quiet).bind goesOn

/-- A steady activity may stand at the beginning of both. -/
theorem IsSteady.bind {later : γ → δ → Prop} {first : Activity α} {next : α → Activity γ}
    {following : α → Activity δ} (steady : IsSteady first)
    (goesOn : ∀ value, Imitates later (next value) (following value)) :
    Imitates later (first >>= next) (first >>= following) := by
  apply Imitates.bind steady
  rintro value _ rfl
  exact goesOn value

theorem IsSteady.attempt {body : Activity α} (steady : IsSteady body) :
    IsSteady (attempt body) := by
  intro session other quiet
  have alike := steady session other quiet
  unfold Activity.attempt
  cases ran : body session with
  | ok result before =>
      rw [ran] at alike
      obtain ⟨_, after, returned, rfl, still⟩ := alike.ok_of
      rw [returned]
      exact .ok rfl still
  | error failure before =>
      rw [ran] at alike
      obtain ⟨after, stopped, still⟩ := alike.error_of
      rw [stopped]
      exact .ok rfl still

theorem EndAlike.inConversation {body : Activity α} {second : EStateM.Result Failure Session β}
    (alike : EndAlike related
      (body { session with conversations := session.conversations ++ [false] }) second) :
    EndAlike related (inConversation body session) second := by
  have closed : ∀ inner : Session,
      Session.Quiet { inner with conversations := closeLast inner.conversations } inner :=
    fun _ => ⟨⟨rfl, rfl, rfl, rfl⟩, rfl⟩
  unfold Activity.inConversation
  cases ran : body { session with conversations := session.conversations ++ [false] } with
  | ok result before =>
      rw [ran] at alike
      obtain ⟨_, after, rfl, same, still⟩ := alike.ok_of
      exact .ok same ((closed before).trans still)
  | error failure before =>
      rw [ran] at alike
      obtain ⟨after, rfl, still⟩ := alike.error_of
      exact .error ((closed before).trans still)

end Activity

end Restyle
