import Restyle.Proofs.Activity.Acceptance

/-!
# Activities that fail

An activity that fails has failed in one of its parts, and the parts before have
succeeded.  Most parts fail quietly: they leave the workspace and the setting of
the session as they are.  Of the writing of a file more is said: with its path
known to be openable it can fail in one way only.
-/

namespace Restyle

namespace Activity

variable {α β : Type} {session after : Session} {failure : Failure}

theorem bind_eq_error {first : Activity α} {next : α → Activity β} :
    (first >>= next) session = .error failure after ↔
      first session = .error failure after ∨
        ∃ value middle, first session = .ok value middle ∧
          next value middle = .error failure after := by
  cases outcome : first session with
  | ok value middle =>
      rw [bind_of_ok outcome]
      constructor
      · exact fun stopped => Or.inr ⟨value, middle, rfl, stopped⟩
      · rintro (same | ⟨_, _, same, stopped⟩)
        · cases same
        · cases same
          exact stopped
  | error other middle =>
      rw [bind_of_error outcome]
      constructor
      · rintro ⟨⟩
        exact Or.inl rfl
      · rintro (same | ⟨_, _, same, _⟩)
        · cases same
          rfl
        · cases same

/-- An activity that leaves the workspace and the setting alone, whether it
succeeds or fails. -/
def IsQuiet (body : Activity α) : Prop :=
  ∀ session, (∀ result after, body session = .ok result after → session.Quiet after) ∧
    ∀ failure after, body session = .error failure after → session.Quiet after

/-- An activity that leaves the workspace and the setting alone when it fails. -/
def FailsQuietly (body : Activity α) : Prop :=
  ∀ session failure after, body session = .error failure after → session.Quiet after

/-- An activity that does not fail. -/
def Succeeds (body : Activity α) : Prop :=
  ∀ session, ∃ result after, body session = .ok result after

theorem IsQuiet.failsQuietly {body : Activity α} (quiet : IsQuiet body) : FailsQuietly body :=
  fun session => (quiet session).2

theorem Succeeds.failsQuietly {body : Activity α} (succeeds : Succeeds body) :
    FailsQuietly body := by
  intro session failure after stopped
  obtain ⟨_, _, success⟩ := succeeds session
  rw [success] at stopped
  cases stopped

theorem isQuiet_pure (value : α) : IsQuiet (pure value : Activity α) := by
  refine fun session => ⟨fun _ _ success => ?_, fun _ _ stopped => ?_⟩
  · cases success
    exact .refl _
  · cases stopped

theorem isQuiet_throw (failure : Failure) : IsQuiet (throw failure : Activity α) := by
  refine fun session => ⟨fun _ _ success => ?_, fun _ _ stopped => ?_⟩
  · cases success
  · cases stopped
    exact .refl _

theorem IsQuiet.bind {first : Activity α} {next : α → Activity β} (quiet : IsQuiet first)
    (later : ∀ value, IsQuiet (next value)) : IsQuiet (first >>= next) := by
  refine fun session => ⟨fun _ _ success => ?_, fun _ _ stopped => ?_⟩
  · obtain ⟨value, middle, begun, rest⟩ := bind_eq_ok.mp success
    exact ((quiet session).1 _ _ begun).trans ((later value middle).1 _ _ rest)
  · rcases bind_eq_error.mp stopped with early | ⟨value, middle, begun, rest⟩
    · exact (quiet session).2 _ _ early
    · exact ((quiet session).1 _ _ begun).trans ((later value middle).2 _ _ rest)

theorem FailsQuietly.bind {first : Activity α} {next : α → Activity β} (quiet : IsQuiet first)
    (later : ∀ value, FailsQuietly (next value)) : FailsQuietly (first >>= next) := by
  intro session failure after stopped
  rcases bind_eq_error.mp stopped with early | ⟨value, middle, begun, rest⟩
  · exact (quiet session).2 _ _ early
  · exact ((quiet session).1 _ _ begun).trans (later value _ _ _ rest)

theorem Succeeds.bind {first : Activity α} {next : α → Activity β} (begins : Succeeds first)
    (later : ∀ value, Succeeds (next value)) : Succeeds (first >>= next) := by
  intro session
  obtain ⟨value, middle, begun⟩ := begins session
  rw [bind_of_ok begun]
  exact later value middle

theorem succeeds_pure (value : α) : Succeeds (pure value : Activity α) :=
  fun session => ⟨value, session, rfl⟩

theorem succeeds_log (level : LogLevel) (channel : LogChannel) (message : String) :
    Succeeds (log level channel message) := fun _ => ⟨_, _, log_apply ..⟩

theorem isQuiet_display (shown : Shown) : IsQuiet (display shown) :=
  fun _ => ⟨fun _ _ success => display_quiet success, fun _ _ stopped => by cases stopped⟩

theorem isQuiet_value (computed : Except Fault α) : IsQuiet (value computed) := by
  cases computed with
  | ok result => exact isQuiet_pure result
  | error fault => exact isQuiet_throw (.value fault)

theorem nextAnswer_eq_error (stopped : nextAnswer session = .error failure after) :
    failure = .noAnswer ∧ session = after := by
  unfold nextAnswer at stopped
  rw [get_bind] at stopped
  cases coming : session.answers with
  | nil =>
      rw [coming] at stopped
      cases stopped
      exact ⟨rfl, rfl⟩
  | cons answer later =>
      rw [coming] at stopped
      cases stopped

theorem isQuiet_nextAnswer : IsQuiet nextAnswer := by
  refine fun session => ⟨fun _ _ success => nextAnswer_quiet success, fun _ _ stopped => ?_⟩
  obtain ⟨_, rfl⟩ := nextAnswer_eq_error stopped
  exact .refl _

theorem succeeds_copyFile (source target : Path) : Succeeds (copyFile source target) := by
  intro session
  unfold copyFile
  rw [get_bind]
  cases read : session.workspace.readBytes source with
  | error error => exact ⟨_, _, rfl⟩
  | ok bytes =>
      cases stored : session.workspace.writeBytes target bytes with
      | error error =>
          simp only [stored]
          exact ⟨_, _, rfl⟩
      | ok workspace =>
          simp only [stored]
          exact ⟨_, _, rfl⟩

/-- A conversation that fails is its body, but for the note that it took
place. -/
theorem inConversation_eq_error {body : Activity α}
    (stopped : inConversation body session = .error failure after) :
    ∃ middle, body { session with conversations := session.conversations ++ [false] } =
        .error failure middle ∧ middle.Quiet after := by
  unfold inConversation at stopped
  split at stopped
  · cases stopped
  · rename_i outcome
    cases stopped
    exact ⟨_, outcome, ⟨⟨rfl, rfl, rfl, rfl⟩, rfl⟩⟩

/-- Over a file that is there, with nothing in the way of its temporary file, a
write fails as a write or not at all. -/
theorem writeFile_of_file {target : Path} (content : String) {bytes : List UInt8}
    (plain : session.HasPlainTag) (clean : target.hasNull = false)
    (read : session.workspace.readBytes target = .ok bytes)
    (free : session.workspace.get? (temporaryFor session target).place ≠ some .directory) :
    (session.Accepts target ∧ ∃ after, writeFile target content session = .ok () after) ∨
      (¬ session.Accepts target ∧
        ∃ cause after, writeFile target content session = .error (.write cause) after) := by
  by_cases accepted : session.Accepts target
  · exact Or.inl ⟨accepted, writeFile_of_accepts plain clean read free accepted⟩
  · exact Or.inr ⟨accepted, writeFile_of_refused plain clean read accepted⟩

end Activity

end Restyle
