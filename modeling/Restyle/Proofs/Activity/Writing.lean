import Restyle.Proofs.Activity.Outcome
import Restyle.Proofs.Workspace.Operations

/-!
# Reading and writing files

`Workspace.readText` is what reading a path gives.  Writing a file touches its
place and that of its temporary file: when it succeeds, the file holds the
content, and when it fails, only the place of the temporary file is touched.
-/

namespace Restyle

/-- The text of a file, every line end made a line feed. -/
def Workspace.readText (workspace : Workspace) (path : Path) : Except ReadFailure String :=
  match workspace.readBytes path with
  | .error error => .error (.system error)
  | .ok bytes =>
      match Text.decode bytes with
      | .error fault => .error (.encoding fault)
      | .ok text => .ok (String.ofList (Text.unifyBreaks text))

theorem Workspace.readText_eq_ok_iff {workspace : Workspace} {path : Path} {text : String} :
    workspace.readText path = .ok text ↔
      ∃ bytes characters, workspace.readBytes path = .ok bytes ∧
        Text.decode bytes = .ok characters ∧
          text = String.ofList (Text.unifyBreaks characters) := by
  unfold Workspace.readText
  constructor
  · intro read
    split at read
    · cases read
    · rename_i bytes stored
      split at read
      · cases read
      · rename_i characters decoded
        cases read
        exact ⟨bytes, characters, stored, decoded, rfl⟩
  · rintro ⟨bytes, characters, stored, decoded, rfl⟩
    simp [stored, decoded]

/-- A file that is there may hold no text, but it is not missing. -/
theorem Workspace.isMissing_of_present {workspace : Workspace} {path : Path} {bytes : List UInt8}
    {reason : ReadFailure} (present : workspace.readBytes path = .ok bytes)
    (content : workspace.readText path = .error reason) : reason.isMissing = false := by
  unfold Workspace.readText at content
  rw [present] at content
  cases decoded : Text.decode bytes with
  | ok characters => simp [decoded] at content
  | error fault =>
      simp only [decoded, Except.error.injEq] at content
      rw [← content]
      rfl

/-- Whether the text that bytes encode is read as an outcome says. -/
def Text.ReadsAs (bytes : List UInt8) (outcome : Except Json.ReadError Json) : Prop :=
  ∃ characters, Text.decode bytes = .ok characters ∧
    Json.read (String.ofList (Text.unifyBreaks characters)) = outcome

theorem Workspace.readsAs_iff {workspace : Workspace} {path : Path} {bytes : List UInt8}
    {outcome : Except Json.ReadError Json} (present : workspace.readBytes path = .ok bytes) :
    Text.ReadsAs bytes outcome ↔
      ∃ text, workspace.readText path = .ok text ∧ Json.read text = outcome := by
  constructor
  · rintro ⟨characters, decoded, read⟩
    exact ⟨_, Workspace.readText_eq_ok_iff.mpr ⟨bytes, characters, present, decoded, rfl⟩, read⟩
  · rintro ⟨text, content, read⟩
    obtain ⟨others, characters, again, decoded, rfl⟩ := Workspace.readText_eq_ok_iff.mp content
    obtain rfl : bytes = others := Except.ok.inj (present.symm.trans again)
    exact ⟨characters, decoded, read⟩

/-- A text away from the touched places reads as before. -/
theorem Workspace.Evolves.readText {touched made : Place → Prop} {before after : Workspace}
    {path : Path} {text : String} (evolved : Workspace.Evolves touched made before after)
    (outside : ¬ touched path.place) (read : before.readText path = .ok text) :
    after.readText path = .ok text := by
  obtain ⟨bytes, characters, stored, decoded, same⟩ := Workspace.readText_eq_ok_iff.mp read
  exact Workspace.readText_eq_ok_iff.mpr
    ⟨bytes, characters, evolved.readBytes outside stored, decoded, same⟩

namespace Activity

variable {session after : Session} {path target : Path} {content : String}

theorem readText_apply (clean : path.hasNull = false) :
    Activity.readText path session = .ok (session.workspace.readText path) session := by
  unfold Activity.readText
  rw [bind_of_ok (requirePath_eq_ok.mpr ⟨clean, rfl⟩), get_bind]
  unfold Workspace.readText
  cases stored : session.workspace.readBytes path with
  | error error => rfl
  | ok bytes =>
      cases decoded : Text.decode bytes with
      | error fault =>
          simp only [decoded]
          rfl
      | ok characters =>
          simp only [decoded]
          rfl

theorem readText_of_null (isNull : path.hasNull = true) :
    Activity.readText path session = .error (.value .nullInPath) session := by
  unfold Activity.readText
  exact bind_of_error (requirePath_eq_error.mpr ⟨isNull, rfl, rfl⟩)

theorem readText_eq_ok {outcome : Except ReadFailure String} :
    Activity.readText path session = .ok outcome after ↔
      path.hasNull = false ∧ outcome = session.workspace.readText path ∧ session = after := by
  constructor
  · intro read
    have clean : path.hasNull = false := by
      obtain ⟨_, _, allowed, _⟩ := bind_eq_ok.mp read
      exact (requirePath_eq_ok.mp allowed).1
    rw [readText_apply clean] at read
    cases read
    exact ⟨clean, rfl, rfl⟩
  · rintro ⟨clean, rfl, rfl⟩
    exact readText_apply clean

/-- The temporary file of a target in a session. -/
def temporaryFor (session : Session) (target : Path) : Path :=
  temporaryPath target session.temporaryTag

theorem parent_hasNull (clean : target.hasNull = false) : target.parent.hasNull = false := by
  simp only [Path.hasNull, List.any_eq_false] at clean ⊢
  intro name member
  exact clean name (List.dropLast_subset target.names member)

/-- Why the writing of a file has not begun: its directory cannot be made, its path
holds the null character, or its directory is there but not the permissions to keep. -/
inductive Unbegun (middle : Session) (target : Path) : Failure → Prop where
  | directory (cause : WriteCause) : Unbegun middle target (.write cause)
  | null (null : target.hasNull = true) : Unbegun middle target (.value .nullInPath)
  | permissions {error : SystemError} (parent : middle.workspace.stat target.parent = .ok .directory)
      (asked : middle.workspace.mode? target = .error error) :
      Unbegun middle target (.reading (.system error))

private theorem makeParent_outcome (touched : Place → Prop) (session : Session) (target : Path) :
    (∀ result after, makeParent target session = .ok result after →
        session.SameSetting after ∧
          Workspace.Evolves touched target.parent.Passes session.workspace
            after.workspace ∧
            after.workspace.stat target.parent = .ok .directory) ∧
      ∀ failure after, makeParent target session = .error failure after →
        session.SameSetting after ∧
          Workspace.Evolves touched target.parent.Passes session.workspace
            after.workspace ∧
            Unbegun after target failure := by
  have made : Workspace.Evolves touched target.parent.Passes session.workspace
      (session.workspace.ensureDirectories target.parent.anchor
        target.parent.names.reverse).1 := by
    have nested := @Workspace.ensureDirectories_evolves touched session.workspace
      target.parent.anchor target.parent.names.reverse
    rwa [List.reverse_reverse] at nested
  unfold makeParent
  cases requirement : requirePath target.parent session with
  | error failure middle =>
      obtain ⟨null, rfl, rfl⟩ := requirePath_eq_error.mp requirement
      simp only [bind_of_error requirement]
      constructor
      · intro _ _ success
        cases success
      · intro _ _ stopped
        cases stopped
        refine ⟨.refl _, .refl _ _ _, .null ?_⟩
        cases clean : target.hasNull with
        | true => rfl
        | false => rw [parent_hasNull clean] at null; cases null
  | ok result middle =>
      obtain ⟨_, rfl⟩ := requirePath_eq_ok.mp requirement
      simp only [bind_of_ok requirement, get_bind]
      cases troubleAt session target (· == .makingDirectory) with
      | some error =>
          constructor
          · intro _ _ success
            cases success
          · intro _ _ stopped
            cases stopped
            exact ⟨.refl _, .refl _ _ _, .directory _⟩
      | none =>
          cases attempted : session.workspace.ensureDirectories target.parent.anchor
              target.parent.names.reverse with
          | mk workspace error =>
              rw [attempted] at made
              dsimp only
              cases error with
              | some error =>
                  constructor
                  · intro _ _ success
                    cases success
                  · intro _ _ stopped
                    cases stopped
                    exact ⟨⟨rfl, rfl, rfl, rfl⟩, made, .directory _⟩
              | none =>
                  have there := Workspace.stat_ensureDirectories attempted
                  rw [List.reverse_reverse] at there
                  constructor
                  · intro _ _ success
                    cases success
                    exact ⟨⟨rfl, rfl, rfl, rfl⟩, made, there⟩
                  · intro _ _ stopped
                    cases stopped

private theorem modeOf_outcome (session : Session) (target : Path) :
    (∀ mode after, modeOf target session = .ok mode after →
        after = session ∧ session.workspace.mode? target = .ok mode) ∧
      ∀ failure after, modeOf target session = .error failure after → after = session ∧
        (session.workspace.stat target.parent = .ok .directory → Unbegun session target failure) := by
  unfold modeOf
  cases requirement : requirePath target session with
  | error failure middle =>
      obtain ⟨null, rfl, rfl⟩ := requirePath_eq_error.mp requirement
      simp only [bind_of_error requirement]
      constructor
      · intro _ _ success
        cases success
      · intro _ _ stopped
        cases stopped
        exact ⟨rfl, fun _ => .null null⟩
  | ok result middle =>
      obtain ⟨_, rfl⟩ := requirePath_eq_ok.mp requirement
      simp only [bind_of_ok requirement, get_bind]
      cases asked : session.workspace.mode? target with
      | ok mode =>
          constructor
          · intro _ _ success
            cases success
            exact ⟨rfl, rfl⟩
          · intro _ _ stopped
            cases stopped
      | error error =>
          constructor
          · intro _ _ success
            cases success
          · intro _ _ stopped
            cases stopped
            exact ⟨rfl, fun parent => .permissions parent asked⟩

/-- Whether the file at a path can be taken away: nothing stands there that did not
stand there before, or the path leads to a file. -/
def Removable (before workspace : Workspace) (path : Path) : Prop :=
  workspace.get? path.place = before.get? path.place ∨
    workspace.locate path = .ok path.place ∧
      ∃ bytes mode, workspace.get? path.place = some (.file bytes mode)

/-- A temporary file that is ready holds the bytes; it is moved over the target
unless there is trouble. -/
private theorem moving_outcome {temporary : Path} {before ready workspace : Workspace}
    {bytes : List UInt8} {last : Nat} {error : Option SystemError}
    {made : Place → Prop} (evolved : Workspace.Evolves (· = temporary.place) made before ready)
    (located : ready.locate temporary = .ok temporary.place)
    (standing : ready.get? temporary.place = some (.file bytes last))
    (attempted :
      (match troubleAt session target (· == .moving) with
        | some error => (ready, some error)
        | none =>
            match ready.moveOver temporary target with
            | .error error => (ready, some error)
            | .ok moved => (moved, none)) = (workspace, error)) :
    (error = none →
        Workspace.Evolves (fun place => place = temporary.place ∨ place = target.place)
            made before workspace ∧
          workspace.locate target = .ok target.place ∧
            workspace.get? target.place = some (.file bytes last) ∧
              (temporary.place ≠ target.place → workspace.get? temporary.place = none)) ∧
      (error ≠ none → Workspace.Evolves (· = temporary.place) made before workspace ∧
        Removable before workspace temporary) := by
  have stays : Removable before ready temporary := Or.inr ⟨located, bytes, last, standing⟩
  split at attempted
  · cases attempted
    exact ⟨fun absent => by simp at absent, fun _ => ⟨evolved, stays⟩⟩
  · split at attempted
    · cases attempted
      exact ⟨fun absent => by simp at absent, fun _ => ⟨evolved, stays⟩⟩
    · rename_i moved success
      cases attempted
      obtain ⟨_, located, _⟩ := Workspace.moveOver_cases success
      obtain ⟨both, placed, gone⟩ := Workspace.moveOver_file made success standing
      refine ⟨fun _ => ⟨?_, both.locate located, placed, gone⟩, fun present => ?_⟩
      · exact (evolved.touching fun _ touched => Or.inl touched).trans both
      · exact absurd rfl present

/-- Writing through a temporary file that ends well has put the bytes at the
target, with the permissions asked for or those of a new file; otherwise only the
temporary file is concerned. -/
theorem writeThrough_outcome {temporary : Path} {mode : Option Nat} {bytes : List UInt8}
    {workspace : Workspace} {error : Option SystemError} (made : Place → Prop)
    (attempted : writeThrough session temporary target mode bytes = (workspace, error)) :
    (error = none →
        Workspace.Evolves (fun place => place = temporary.place ∨ place = target.place)
            made session.workspace workspace ∧
          workspace.locate target = .ok target.place ∧
            (∃ last, workspace.get? target.place = some (.file bytes last) ∧
              (session.workspace.get? temporary.place = none →
                last = mode.getD Workspace.newFileMode)) ∧
              (temporary.place ≠ target.place → workspace.get? temporary.place = none)) ∧
      (error ≠ none →
        Workspace.Evolves (· = temporary.place) made session.workspace workspace ∧
          Removable session.workspace workspace temporary) := by
  unfold writeThrough at attempted
  dsimp only at attempted
  split at attempted
  · cases attempted
    exact ⟨fun absent => by simp at absent, fun _ => ⟨.refl _ _ _, Or.inl rfl⟩⟩
  · rename_i written stored
    have first := @Workspace.writeBytes_evolves _ _ _ made _ stored
    have located := first.locate (Workspace.writeBytes_cases stored).1
    obtain ⟨last, standing⟩ := Workspace.get?_writeBytes stored
    have stays : Removable session.workspace written temporary := Or.inr ⟨located, _, last, standing⟩
    split at attempted
    · cases attempted
      exact ⟨fun absent => by simp at absent, fun _ => ⟨first, stays⟩⟩
    · rename_i noTrouble
      rw [noTrouble] at standing stored
      simp only [Option.map_none, Option.getD_none, List.take_length] at standing stored
      cases mode with
      | none =>
          split at attempted
          · rename_i impossible
            cases impossible
          · obtain ⟨moves, stops⟩ := moving_outcome first located standing attempted
            refine ⟨fun ended => ?_, stops⟩
            obtain ⟨evolved, reached, placed, gone⟩ := moves ended
            refine ⟨evolved, reached, ⟨last, placed, fun absent => ?_⟩, gone⟩
            rw [Workspace.get?_writeBytes_new stored absent] at standing
            cases standing
            rfl
      | some mode =>
          have kept := Workspace.get?_setMode_of_located located standing mode
          have second := @Workspace.setMode_evolves made written temporary mode
          split at attempted
          · cases attempted
            exact ⟨fun absent => by simp at absent, fun _ => ⟨first, stays⟩⟩
          · obtain ⟨moves, stops⟩ :=
              moving_outcome (first.trans second) (second.locate located) kept attempted
            refine ⟨fun ended => ?_, stops⟩
            obtain ⟨evolved, reached, placed, gone⟩ := moves ended
            exact ⟨evolved, reached, ⟨mode, placed, fun _ => rfl⟩, gone⟩

/-- What writing a file comes to.  It fails before it has a temporary file, or it
writes through one, and takes it away again if that fails. -/
inductive Writes (session : Session) (target : Path) (content : String) :
    EStateM.Result Failure Session Unit → Prop where
  | unmade {failure : Failure} {middle : Session} (setting : session.SameSetting middle)
      (directories : ∀ touched : Place → Prop, Workspace.Evolves touched target.parent.Passes
        session.workspace middle.workspace)
      (reason : Unbegun middle target failure) :
      Writes session target content (.error failure middle)
  | refused {ready : Session} {mode : Option Nat} {workspace : Workspace} {error : SystemError}
      (setting : session.SameSetting ready)
      (directories : ∀ touched : Place → Prop, Workspace.Evolves touched target.parent.Passes
        session.workspace ready.workspace)
      (attempted : writeThrough ready (temporaryFor session target) target mode
        (Text.encode content.toList) = (workspace, some error)) :
      Writes session target content (.error (.write (.file error))
        { ready with workspace := workspace.removeFile (temporaryFor session target) })
  | stored {ready : Session} {mode : Option Nat} {workspace : Workspace} {log : List LogEntry}
      (setting : session.SameSetting ready)
      (directories : ∀ touched : Place → Prop, Workspace.Evolves touched target.parent.Passes
        session.workspace ready.workspace)
      (parent : ready.workspace.stat target.parent = .ok .directory)
      (permissions : ready.workspace.mode? target = .ok mode)
      (attempted : writeThrough ready (temporaryFor session target) target mode
        (Text.encode content.toList) = (workspace, none)) :
      Writes session target content (.ok () { ready with workspace, log })

theorem writeFile_writes (session : Session) (target : Path) (content : String) :
    Writes session target content (writeFile target content session) := by
  unfold writeFile
  cases made : makeParent target session with
  | error failure middle =>
      obtain ⟨setting, _, reason⟩ :=
        (makeParent_outcome (fun _ => True) session target).2 _ _ made
      rw [bind_of_error made]
      exact .unmade setting
        (fun touched => ((makeParent_outcome touched session target).2 _ _ made).2.1) reason
  | ok result parented =>
      obtain ⟨setting, _, there⟩ := (makeParent_outcome (fun _ => True) session target).1 _ _ made
      have directories : ∀ touched : Place → Prop, Workspace.Evolves touched target.parent.Passes
          session.workspace parented.workspace :=
        fun touched => ((makeParent_outcome touched session target).1 _ _ made).2.1
      rw [bind_of_ok made]
      cases asked : modeOf target parented with
      | error failure middle =>
          obtain ⟨rfl, reason⟩ := (modeOf_outcome parented target).2 _ _ asked
          rw [bind_of_error asked]
          exact .unmade setting directories (reason there)
      | ok mode known =>
          obtain ⟨rfl, permissions⟩ := (modeOf_outcome parented target).1 _ _ asked
          rw [bind_of_ok asked, get_bind]
          have sameTag : temporaryPath target known.temporaryTag = temporaryFor session target := by
            rw [temporaryFor, setting.temporaryTag]
          simp only [sameTag]
          cases attempted : writeThrough known (temporaryFor session target) target mode
              (Text.encode content.toList) with
          | mk workspace error =>
              cases error with
              | none =>
                  simp only [set_bind, log_apply]
                  exact @Writes.stored session target content known mode workspace _ setting
                    directories there permissions attempted
              | some error =>
                  simp only [set_bind]
                  exact @Writes.refused session target content known mode workspace error setting
                    directories attempted

/-- A write that succeeds leaves its content at the target, and nothing else
changes but the place of the temporary file. -/
theorem writeFile_ok (success : writeFile target content session = .ok () after) :
    session.SameSetting after ∧
      Workspace.Evolves
          (fun place => place = (temporaryFor session target).place ∨ place = target.place)
          target.parent.Passes session.workspace after.workspace ∧
        after.workspace.readBytes target = .ok (Text.encode content.toList) := by
  have writes := writeFile_writes session target content
  rw [success] at writes
  cases writes with
  | stored setting directories _ _ attempted =>
      obtain ⟨evolved, located, ⟨last, standing, _⟩, _⟩ :=
        (writeThrough_outcome target.parent.Passes attempted).1 rfl
      have begun := directories fun place =>
        place = (temporaryFor session target).place ∨ place = target.place
      refine ⟨setting.trans ⟨rfl, rfl, rfl, rfl⟩, begun.trans evolved, ?_⟩
      exact Workspace.readBytes_eq_ok_iff.mpr ⟨located, last, standing⟩

theorem writeFile_error {failure : Failure}
    (stopped : writeFile target content session = .error failure after) :
    session.SameSetting after ∧
      Workspace.Evolves (· = (temporaryFor session target).place) target.parent.Passes
        session.workspace after.workspace := by
  have writes := writeFile_writes session target content
  rw [stopped] at writes
  cases writes with
  | unmade setting directories => exact ⟨setting, directories _⟩
  | refused setting directories attempted =>
      obtain ⟨evolved, _⟩ := (writeThrough_outcome target.parent.Passes attempted).2 (by simp)
      have begun := (directories (· = (temporaryFor session target).place)).trans evolved
      refine ⟨setting.trans ⟨rfl, rfl, rfl, rfl⟩, begun.trans ?_⟩
      dsimp only
      exact Workspace.removeFile_evolves _ _

/-- However a write ends, nothing stands in the place of its temporary file
afterwards, if nothing stood there before. -/
theorem writeFile_clears
    (apart : (temporaryFor session target).place ≠ target.place)
    (absent : session.workspace.get? (temporaryFor session target).place = none)
    (aside : ¬ target.parent.Passes (temporaryFor session target).place) :
    (∀ result after, writeFile target content session = .ok result after →
        after.workspace.get? (temporaryFor session target).place = none) ∧
      ∀ failure after, writeFile target content session = .error failure after →
        after.workspace.get? (temporaryFor session target).place = none := by
  have still : ∀ {ready : Workspace}, (∀ touched : Place → Prop,
      Workspace.Evolves touched target.parent.Passes session.workspace ready) →
        ready.get? (temporaryFor session target).place = none := by
    intro ready directories
    have evolved := directories fun _ => False
    rcases evolved.keepsOther _ id with kept | ⟨_, made⟩
    · exact kept.trans absent
    · rcases evolved.newDirectory _ made with old | permitted
      · rw [absent] at old
        cases old
      · exact absurd permitted aside
  have writes := writeFile_writes session target content
  constructor
  · intro result after success
    rw [success] at writes
    cases writes with
    | stored setting directories _ _ attempted =>
        exact ((writeThrough_outcome target.parent.Passes attempted).1 rfl).2.2.2 apart
  · intro failure after stopped
    rw [stopped] at writes
    cases writes with
    | unmade setting directories => exact still directories
    | refused setting directories attempted =>
        obtain ⟨_, removable⟩ := (writeThrough_outcome target.parent.Passes attempted).2 (by simp)
        dsimp only
        rcases removable with same | ⟨located, bytes, mode, standing⟩
        · exact Workspace.get?_removeFile (Or.inl (same.trans (still directories)))
        · exact Workspace.get?_removeFile (Or.inr ⟨located, bytes, mode, standing⟩)

theorem writeFile_clean (success : writeFile target content session = .ok () after) :
    target.hasNull = false := by
  unfold writeFile at success
  obtain ⟨_, _, _, rest⟩ := bind_eq_ok.mp success
  obtain ⟨_, _, asked, _⟩ := bind_eq_ok.mp rest
  unfold modeOf at asked
  obtain ⟨_, _, required, _⟩ := bind_eq_ok.mp asked
  exact (requirePath_eq_ok.mp required).1

/-- Copying a file either does nothing or puts its bytes at the target. -/
theorem copyFile_cases {source : Path} {outcome : Except SystemError Unit}
    (success : copyFile source target session = .ok outcome after) :
    (∃ error, outcome = .error error ∧ after = session) ∨
      ∃ bytes workspace, outcome = .ok () ∧ session.workspace.readBytes source = .ok bytes ∧
        session.workspace.writeBytes target bytes = .ok workspace ∧
          after = { session with workspace } := by
  unfold copyFile at success
  rw [get_bind] at success
  cases read : session.workspace.readBytes source with
  | error error =>
      simp only [read, pure_eq_ok] at success
      exact Or.inl ⟨error, success.1.symm, success.2.symm⟩
  | ok bytes =>
      cases stored : session.workspace.writeBytes target bytes with
      | error error =>
          simp only [read, stored, pure_eq_ok] at success
          exact Or.inl ⟨error, success.1.symm, success.2.symm⟩
      | ok workspace =>
          simp only [read, stored, set_bind, pure_eq_ok] at success
          exact Or.inr ⟨bytes, workspace, success.1.symm, rfl, stored, success.2.symm⟩

theorem copyFile_of_free {source : Path} {bytes : List UInt8}
    (read : session.workspace.readBytes source = .ok bytes)
    (located : session.workspace.locate target = .ok target.place)
    (free : session.workspace.get? target.place ≠ some .directory) :
    ∃ copied, copyFile source target session = .ok (.ok ()) copied := by
  obtain ⟨workspace, put⟩ := Workspace.writeBytes_of_free bytes located free
  unfold copyFile
  simp only [get_bind, read, put]
  exact ⟨_, rfl⟩

theorem copyFile_ok {made : Place → Prop} {source : Path} {outcome : Except SystemError Unit}
    (success : copyFile source target session = .ok outcome after) :
    session.SameSetting after ∧
      Workspace.Evolves (· = target.place) made session.workspace after.workspace := by
  rcases copyFile_cases success with ⟨_, _, rfl⟩ | ⟨bytes, workspace, _, _, stored, rfl⟩
  · exact ⟨.refl _, .refl _ _ _⟩
  · exact ⟨⟨rfl, rfl, rfl, rfl⟩, Workspace.writeBytes_evolves stored⟩

end Activity

end Restyle
