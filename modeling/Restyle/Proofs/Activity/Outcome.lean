import Restyle.Activity

/-!
# Outcomes of activities

An activity that succeeds has succeeded in each of its parts.  The lemmas here
take an activity apart along its sequencing, so that no later proof looks into
it.  A part is quiet when it leaves the workspace and the setting of the
session as they are.
-/

namespace Restyle

/-- What no activity changes about a session. -/
structure Session.SameSetting (before after : Session) : Prop where
  project : after.project = before.project
  temporaryTag : after.temporaryTag = before.temporaryTag
  trouble : after.trouble = before.trouble
  now : after.now = before.now

namespace Session.SameSetting

theorem refl (session : Session) : SameSetting session session :=
  ⟨rfl, rfl, rfl, rfl⟩

theorem trans {before middle after : Session} (first : SameSetting before middle)
    (second : SameSetting middle after) : SameSetting before after where
  project := second.project.trans first.project
  temporaryTag := second.temporaryTag.trans first.temporaryTag
  trouble := second.trouble.trans first.trouble
  now := second.now.trans first.now

end Session.SameSetting

/-- The workspace and the setting are as before. -/
structure Session.Quiet (before after : Session) : Prop extends
    Session.SameSetting before after where
  workspace : after.workspace = before.workspace

namespace Session.Quiet

theorem refl (session : Session) : Quiet session session :=
  ⟨.refl session, rfl⟩

theorem trans {before middle after : Session} (first : Quiet before middle)
    (second : Quiet middle after) : Quiet before after :=
  ⟨first.toSameSetting.trans second.toSameSetting, second.workspace.trans first.workspace⟩

end Session.Quiet

namespace Activity

variable {α β : Type} {session after : Session} {failure : Failure}

theorem bind_eq_ok {first : Activity α} {next : α → Activity β} {result : β} :
    (first >>= next) session = .ok result after ↔
      ∃ value middle, first session = .ok value middle ∧ next value middle = .ok result after := by
  show EStateM.bind first next session = .ok result after ↔ _
  unfold EStateM.bind
  cases outcome : first session with
  | ok value middle =>
      constructor
      · intro success
        exact ⟨value, middle, rfl, success⟩
      · rintro ⟨_, _, same, success⟩
        cases same
        exact success
  | error failure middle =>
      constructor
      · intro success
        cases success
      · rintro ⟨_, _, same, _⟩
        cases same

theorem bind_of_ok {first : Activity α} {next : α → Activity β} {value : α} {middle : Session}
    (success : first session = .ok value middle) :
    (first >>= next) session = next value middle := by
  show EStateM.bind first next session = _
  simp [EStateM.bind, success]

theorem bind_of_error {first : Activity α} {next : α → Activity β} {middle : Session}
    (stopped : first session = .error failure middle) :
    (first >>= next) session = .error failure middle := by
  show EStateM.bind first next session = _
  simp [EStateM.bind, stopped]

theorem get_bind {next : Session → Activity β} :
    (get >>= next) session = next session session := rfl

theorem set_bind {other : Session} {next : PUnit → Activity β} :
    (set other >>= next) session = next ⟨⟩ other := rfl

theorem map_eq_ok {first : Activity α} {function : α → β} {result : β} :
    (function <$> first) session = .ok result after ↔
      ∃ value, first session = .ok value after ∧ function value = result := by
  show EStateM.map function first session = .ok result after ↔ _
  unfold EStateM.map
  cases outcome : first session with
  | ok value middle =>
      constructor
      · intro success
        cases success
        exact ⟨value, rfl, rfl⟩
      · rintro ⟨_, same, rfl⟩
        cases same
        rfl
  | error failure middle =>
      constructor
      · intro success
        cases success
      · rintro ⟨_, same, _⟩
        cases same

@[simp]
theorem pure_eq_ok {value result : α} :
    (pure value : Activity α) session = .ok result after ↔ value = result ∧ session = after := by
  show EStateM.Result.ok value session = .ok result after ↔ _
  constructor
  · intro success
    cases success
    exact ⟨rfl, rfl⟩
  · rintro ⟨rfl, rfl⟩
    rfl

@[simp]
theorem throw_ne_ok {result : α} :
    (throw failure : Activity α) session = .ok result after ↔ False := by
  show EStateM.Result.error failure session = .ok result after ↔ _
  constructor
  · intro success
    cases success
  · exact False.elim

@[simp]
theorem get_eq_ok {current : Session} :
    (get : Activity Session) session = .ok current after ↔ session = current ∧ session = after := by
  show EStateM.Result.ok session session = .ok current after ↔ _
  constructor
  · intro success
    cases success
    exact ⟨rfl, rfl⟩
  · rintro ⟨rfl, rfl⟩
    rfl

@[simp]
theorem value_eq_ok {computed : Except Fault α} {result : α} :
    Activity.value computed session = .ok result after ↔ computed = .ok result ∧ session = after := by
  cases computed with
  | ok other => simp [Activity.value]
  | error fault => simp [Activity.value]

@[simp]
theorem lift_eq_ok {computed : Except Failure α} {result : α} :
    Activity.lift computed session = .ok result after ↔ computed = .ok result ∧ session = after := by
  cases computed with
  | ok other => simp [Activity.lift]
  | error failure => simp [Activity.lift]

@[simp]
theorem log_apply (level : LogLevel) (channel : LogChannel) (message : String) :
    Activity.log level channel message session =
      .ok () { session with log := session.log ++ [⟨level, channel, message⟩] } := rfl

theorem log_quiet {level : LogLevel} {channel : LogChannel} {message : String}
    (success : Activity.log level channel message session = .ok () after) :
    session.Quiet after := by
  rw [log_apply] at success
  cases success
  exact ⟨⟨rfl, rfl, rfl, rfl⟩, rfl⟩

theorem display_quiet {shown : Shown} (success : Activity.display shown session = .ok () after) :
    session.Quiet after := by
  cases success
  exact ⟨⟨rfl, rfl, rfl, rfl⟩, rfl⟩

theorem nextAnswer_eq_ok {answer : String} :
    Activity.nextAnswer session = .ok answer after ↔
      ∃ later, session.answers = answer :: later ∧ after = { session with answers := later } := by
  unfold Activity.nextAnswer
  rw [get_bind]
  cases coming : session.answers with
  | nil => simp
  | cons first later =>
      constructor
      · intro success
        cases success
        exact ⟨later, rfl, rfl⟩
      · rintro ⟨_, same, rfl⟩
        cases same
        rfl

theorem nextAnswer_quiet {answer : String}
    (success : Activity.nextAnswer session = .ok answer after) : session.Quiet after := by
  obtain ⟨later, _, rfl⟩ := nextAnswer_eq_ok.mp success
  exact ⟨⟨rfl, rfl, rfl, rfl⟩, rfl⟩

theorem attempt_eq_ok {body : Activity α} {outcome : Except Failure α} :
    Activity.attempt body session = .ok outcome after ↔
      (∃ result, outcome = .ok result ∧ body session = .ok result after) ∨
        ∃ failure, outcome = .error failure ∧ body session = .error failure after := by
  unfold Activity.attempt
  cases tried : body session with
  | ok result middle =>
      constructor
      · intro success
        cases success
        exact Or.inl ⟨result, rfl, rfl⟩
      · rintro (⟨_, rfl, same⟩ | ⟨_, _, same⟩)
        · cases same
          rfl
        · cases same
  | error failure middle =>
      constructor
      · intro success
        cases success
        exact Or.inr ⟨failure, rfl, rfl⟩
      · rintro (⟨_, _, same⟩ | ⟨_, rfl, same⟩)
        · cases same
        · cases same
          rfl

/-- A conversation that succeeds is its body, but for the note that it took
place. -/
theorem inConversation_eq_ok {body : Activity α} {result : α}
    (success : Activity.inConversation body session = .ok result after) :
    ∃ middle, body { session with conversations := session.conversations ++ [false] } =
        .ok result middle ∧
      after = { middle with conversations := closeLast middle.conversations } := by
  unfold Activity.inConversation at success
  split at success
  · rename_i inner middle outcome
    cases success
    exact ⟨middle, outcome, rfl⟩
  · cases success

theorem requirePath_eq_ok {path : Path} :
    Activity.requirePath path session = .ok () after ↔ path.hasNull = false ∧ session = after := by
  unfold Activity.requirePath
  cases path.hasNull <;> simp

theorem requirePath_eq_error {path : Path} {failure : Failure} :
    Activity.requirePath path session = .error failure after ↔
      path.hasNull = true ∧ failure = .value .nullInPath ∧ session = after := by
  unfold Activity.requirePath
  cases path.hasNull with
  | true =>
      show EStateM.Result.error (.value .nullInPath) session = .error failure after ↔ _
      constructor
      · intro stopped
        cases stopped
        exact ⟨rfl, rfl, rfl⟩
      · rintro ⟨_, rfl, rfl⟩
        rfl
  | false =>
      show EStateM.Result.ok () session = .error failure after ↔ _
      simp

end Activity

end Restyle
