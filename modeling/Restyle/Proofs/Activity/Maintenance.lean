import Restyle.Proofs.Activity.Failing

/-!
# What activities maintain

An activity maintains a property of sessions when the property still holds
after it, whether the activity succeeds or fails.  What a long activity
maintains follows from its parts: a property is maintained as long as it does not
look at what the parts change.
-/

namespace Restyle

namespace Activity

/-- An activity after which a property holds that held before, however the
activity ends. -/
def Maintains {α : Type} (holds : Session → Prop) (body : Activity α) : Prop :=
  ∀ session, holds session →
    (∀ result after, body session = .ok result after → holds after) ∧
      ∀ failure after, body session = .error failure after → holds after

/-- A property that does not look at the log. -/
def IgnoresLog (holds : Session → Prop) : Prop :=
  ∀ session log, holds session → holds { session with log }

/-- A property that does not look at the workspace. -/
def IgnoresWorkspace (holds : Session → Prop) : Prop :=
  ∀ session workspace, holds session → holds { session with workspace }

variable {α β : Type} {holds : Session → Prop} {session after : Session}

theorem Maintains.ok {body : Activity α} {result : α} (maintains : Maintains holds body)
    (before : holds session) (success : body session = .ok result after) : holds after :=
  (maintains session before).1 result after success

theorem Maintains.error {body : Activity α} {failure : Failure} (maintains : Maintains holds body)
    (before : holds session) (stopped : body session = .error failure after) : holds after :=
  (maintains session before).2 failure after stopped

theorem maintains_pure (value : α) : Maintains holds (pure value : Activity α) := by
  refine fun session before => ⟨fun _ _ success => ?_, fun _ _ stopped => ?_⟩
  · cases success
    exact before
  · cases stopped

theorem maintains_throw (failure : Failure) : Maintains holds (throw failure : Activity α) := by
  refine fun session before => ⟨fun _ _ success => ?_, fun _ _ stopped => ?_⟩
  · cases success
  · cases stopped
    exact before

theorem maintains_get : Maintains holds (get : Activity Session) := by
  refine fun session before => ⟨fun _ _ success => ?_, fun _ _ stopped => ?_⟩
  · cases success
    exact before
  · cases stopped

theorem Maintains.bind {first : Activity α} {next : α → Activity β}
    (begins : Maintains holds first) (later : ∀ value, Maintains holds (next value)) :
    Maintains holds (first >>= next) := by
  refine fun session before => ⟨fun _ _ success => ?_, fun _ _ stopped => ?_⟩
  · obtain ⟨value, middle, begun, rest⟩ := bind_eq_ok.mp success
    exact (later value).ok (begins.ok before begun) rest
  · rcases bind_eq_error.mp stopped with early | ⟨value, middle, begun, rest⟩
    · exact begins.error before early
    · exact (later value).error (begins.ok before begun) rest

theorem maintains_modify {change : Session → Session}
    (unseen : ∀ session, holds session → holds (change session)) :
    Maintains holds (modify change : Activity PUnit) := by
  refine fun session before => ⟨fun _ _ success => ?_, fun _ _ stopped => ?_⟩
  · cases success
    exact unseen session before
  · cases stopped

theorem maintains_log (unseen : IgnoresLog holds) (level : LogLevel) (channel : LogChannel)
    (message : String) : Maintains holds (log level channel message) :=
  maintains_modify fun session => unseen session _

theorem maintains_value (computed : Except Fault α) : Maintains holds (value computed) := by
  cases computed with
  | ok result => exact maintains_pure result
  | error fault => exact maintains_throw (.value fault)

theorem maintains_lift (computed : Except Failure α) : Maintains holds (lift computed) := by
  cases computed with
  | ok result => exact maintains_pure result
  | error failure => exact maintains_throw failure

theorem maintains_requirePath (path : Path) : Maintains holds (requirePath path) := by
  unfold requirePath
  split
  · exact maintains_throw _
  · exact maintains_pure _

theorem maintains_readText (path : Path) : Maintains holds (readText path) := by
  unfold readText
  refine (maintains_requirePath path).bind fun _ => maintains_get.bind fun session => ?_
  split
  · exact maintains_pure _
  · split
    · exact maintains_pure _
    · exact maintains_pure _

theorem maintains_get_bind {next : Session → Activity β}
    (later : ∀ session, holds session →
      (∀ result after, next session session = .ok result after → holds after) ∧
        ∀ failure after, next session session = .error failure after → holds after) :
    Maintains holds (get >>= next) := later

theorem maintains_copyFile (unseen : IgnoresWorkspace holds) (source target : Path) :
    Maintains holds (copyFile source target) := by
  unfold copyFile
  refine maintains_get_bind fun session before => ?_
  cases read : session.workspace.readBytes source with
  | error error => exact maintains_pure _ session before
  | ok bytes =>
      cases stored : session.workspace.writeBytes target bytes with
      | error error =>
          simp only [stored]
          exact maintains_pure _ session before
      | ok workspace =>
          simp only [stored, set_bind]
          exact maintains_pure _ _ (unseen session workspace before)

theorem maintains_makeParent (unseen : IgnoresWorkspace holds) (target : Path) :
    Maintains holds (makeParent target) := by
  unfold makeParent
  refine (maintains_requirePath _).bind fun _ => maintains_get_bind fun session before => ?_
  cases troubleAt session target (· == .makingDirectory) with
  | some error => exact maintains_throw _ session before
  | none =>
      simp only [set_bind]
      cases (session.workspace.ensureDirectories target.parent.anchor
          target.parent.names.reverse).2 with
      | some error => exact maintains_throw _ _ (unseen session _ before)
      | none => exact maintains_pure _ _ (unseen session _ before)

theorem maintains_modeOf (target : Path) : Maintains holds (modeOf target) := by
  unfold modeOf
  refine (maintains_requirePath _).bind fun _ => maintains_get.bind fun session => ?_
  split
  · exact maintains_pure _
  · exact maintains_throw _

theorem maintains_writeFile (logUnseen : IgnoresLog holds) (unseen : IgnoresWorkspace holds)
    (target : Path) (content : String) : Maintains holds (writeFile target content) := by
  unfold writeFile
  refine (maintains_makeParent unseen target).bind fun _ =>
    (maintains_modeOf target).bind fun mode => maintains_get_bind fun session before => ?_
  cases attempted : writeThrough session (temporaryPath target session.temporaryTag) target mode
      (Text.encode content.toList) with
  | mk workspace error =>
      cases error with
      | some error =>
          simp only [set_bind]
          exact maintains_throw _ _ (unseen session _ before)
      | none =>
          simp only [set_bind]
          exact maintains_log logUnseen _ _ _ _ (unseen session _ before)

theorem Maintains.attempt {body : Activity α} (maintains : Maintains holds body) :
    Maintains holds (attempt body) := by
  refine fun session before => ⟨fun outcome after success => ?_, fun _ _ stopped => ?_⟩
  · obtain ⟨_, _, done⟩ | ⟨_, _, failed⟩ := attempt_eq_ok.mp success
    · exact maintains.ok before done
    · exact maintains.error before failed
  · unfold Activity.attempt at stopped
    split at stopped <;> cases stopped

/-- An activity is quiet that maintains quietness. -/
theorem IsQuiet.of_maintains {body : Activity α}
    (maintains : ∀ base : Session, Maintains base.Quiet body) : IsQuiet body :=
  fun session => maintains session session (.refl session)

theorem ignoresLog_quiet (base : Session) : IgnoresLog base.Quiet :=
  fun _ _ quiet => quiet.trans ⟨⟨rfl, rfl, rfl, rfl⟩, rfl⟩

/-- Whether an activity ends in a session, be it that it returns or fails. -/
def EndsIn (body : Activity α) (session after : Session) : Prop :=
  (∃ result, body session = .ok result after) ∨ ∃ failure, body session = .error failure after

theorem EndsIn.bind {first : Activity α} {next : α → Activity β}
    (ends : EndsIn (first >>= next) session after) :
    (∃ failure, first session = .error failure after) ∨
      ∃ value middle, first session = .ok value middle ∧ EndsIn (next value) middle after := by
  rcases ends with ⟨result, returned⟩ | ⟨failure, stopped⟩
  · obtain ⟨value, middle, begun, rest⟩ := bind_eq_ok.mp returned
    exact Or.inr ⟨value, middle, begun, Or.inl ⟨result, rest⟩⟩
  · rcases bind_eq_error.mp stopped with early | ⟨value, middle, begun, rest⟩
    · exact Or.inl ⟨failure, early⟩
    · exact Or.inr ⟨value, middle, begun, Or.inr ⟨failure, rest⟩⟩

theorem Maintains.ends {body : Activity α} (maintains : Maintains holds body)
    (before : holds session) (ends : EndsIn body session after) : holds after := by
  rcases ends with ⟨result, returned⟩ | ⟨failure, stopped⟩
  · exact maintains.ok before returned
  · exact maintains.error before stopped

end Activity

end Restyle
