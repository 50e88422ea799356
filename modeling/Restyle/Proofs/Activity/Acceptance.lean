import Restyle.Proofs.Activity.Writing

/-!
# Which files can be written

Whether a file that is there can be written does not hang on what it holds or
on the other files: the session has no trouble with it, and the path of its
temporary file is not too long.  `Session.Accepts` is that condition, and
writing succeeds exactly when it holds.
-/

namespace Restyle

namespace Path

theorem follow_append (place names later : List String) :
    follow place (names ++ later) = follow (follow place names) later := by
  induction names generalizing place with
  | nil => rfl
  | cons name names induction =>
      by_cases up : name = ".."
      · simp [follow, up, induction]
      · simp [follow, up, induction]

theorem follow_singleton {place : List String} {name : String} (down : name ≠ "..") :
    follow place [name] = place ++ [name] := by
  simp [follow, down]

theorem follow_of_plain {place names : List String} (plain : ".." ∉ names) :
    follow place names = place ++ names := by
  induction names generalizing place with
  | nil => simp [follow]
  | cons name names induction =>
      have down : name ≠ ".." := fun up => plain (up ▸ List.mem_cons_self)
      have later : ".." ∉ names := fun member => plain (List.mem_cons_of_mem _ member)
      rw [follow, if_neg down, induction later, List.append_assoc]
      rfl

theorem intercalate_size_le (names : List String) (last : String) :
    ("/".intercalate names).utf8ByteSize ≤ ("/".intercalate (names ++ [last])).utf8ByteSize := by
  induction names with
  | nil => simp
  | cons name names induction =>
      cases names with
      | nil => simp [String.intercalate_cons_cons, Nat.add_assoc]
      | cons second names =>
          simp only [List.cons_append, String.intercalate_cons_cons,
            String.utf8ByteSize_append] at induction ⊢
          omega

/-- The directory of a path is not longer than the path, unless it is the empty
path. -/
theorem parent_size (path : Path) :
    path.parent.toString.utf8ByteSize ≤ max 1 path.toString.utf8ByteSize := by
  obtain ⟨anchor, names⟩ := path
  rcases List.eq_nil_or_concat names with empty | ⟨above, last, whole⟩
  · subst names
    simp only [parent, List.dropLast_nil]
    exact Nat.le_max_right _ _
  · subst names
    have shorter := intercalate_size_le above last
    simp only [parent, toString, List.concat_eq_append, List.dropLast_concat]
    split
    · exact Nat.le_max_left _ _
    · rw [if_neg (by simp)]
      simp only [String.utf8ByteSize_append]
      omega

end Path

def Session.temporaryName (session : Session) : String := ".north-tmp-" ++ session.temporaryTag

/-- The tag of the temporary files neither divides a path nor has a suffix. -/
def Session.HasPlainTag (session : Session) : Prop :=
  ∀ character ∈ session.temporaryTag.toList, character ≠ '/' ∧ character ≠ '.'

instance (session : Session) : Decidable session.HasPlainTag :=
  List.decidableBAll (fun character => character ≠ '/' ∧ character ≠ '.') _

namespace Session

variable {session after : Session} {target : Path}

theorem SameSetting.temporaryName (same : session.SameSetting after) :
    after.temporaryName = session.temporaryName := by
  rw [Session.temporaryName, same.temporaryTag, Session.temporaryName]

theorem SameSetting.hasPlainTag (same : session.SameSetting after) (plain : session.HasPlainTag) :
    after.HasPlainTag := by
  unfold HasPlainTag
  rw [same.temporaryTag]
  exact plain

theorem SameSetting.temporaryFor (same : session.SameSetting after) (target : Path) :
    Activity.temporaryFor after target = Activity.temporaryFor session target := by
  rw [Activity.temporaryFor, same.temporaryTag, Activity.temporaryFor]

theorem temporaryName_toList (session : Session) :
    session.temporaryName.toList = ".north-tmp-".toList ++ session.temporaryTag.toList := by
  simp [temporaryName]

theorem temporaryName_ne_up (session : Session) : session.temporaryName ≠ ".." := by
  intro same
  have letters := congrArg String.toList same
  rw [temporaryName_toList] at letters
  have second := congrArg (·[1]?) letters
  simp at second

theorem temporaryFor_names (plain : session.HasPlainTag) (target : Path) :
    (Activity.temporaryFor session target).names =
      target.names.dropLast ++ [session.temporaryName] := by
  have whole : session.temporaryName.toList.splitOn '/' = [session.temporaryName.toList] := by
    rw [List.splitOn_eq_splitOnP]
    apply List.splitOnP_eq_singleton
    intro character member
    rw [temporaryName_toList] at member
    rcases List.mem_append.mp member with fixed | tag
    · have : character ∈ ['.', 'n', 'o', 'r', 't', 'h', '-', 't', 'm', 'p', '-'] := by
        simpa using fixed
      simp only [List.mem_cons, List.not_mem_nil, or_false] at this
      rcases this with rfl | rfl | rfl | rfl | rfl | rfl | rfl | rfl | rfl | rfl | rfl <;> decide
    · simpa using (plain character tag).1
  have relative : (Path.ofString session.temporaryName).anchor = .relative := by
    simp [Path.ofString, temporaryName_toList, Path.anchorOf]
  have names : (Path.ofString session.temporaryName).names = [session.temporaryName] := by
    simp only [Path.ofString, whole]
    rw [List.filter_cons_of_pos]
    · simp
    · simp [temporaryName_toList]
  change (target.parent.join (Path.ofString session.temporaryName)).names = _
  unfold Path.join
  rw [if_neg (by simp [Path.isAbsolute, relative])]
  simp [names, Path.parent]

theorem temporaryFor_place (plain : session.HasPlainTag) (target : Path) :
    (Activity.temporaryFor session target).place =
      target.parent.place ++ [session.temporaryName] := by
  unfold Path.place
  rw [temporaryFor_names plain, Path.follow_append,
    Path.follow_singleton (temporaryName_ne_up session)]
  rfl

/-- Whether a session takes writes to a target. -/
structure Accepts (session : Session) (target : Path) : Prop where
  noTrouble : session.trouble target = none
  shortPath :
    (Activity.temporaryFor session target).toString.utf8ByteSize < Workspace.pathLimit
  shortName : session.temporaryName.utf8ByteSize ≤ Workspace.nameLimit

theorem SameSetting.accepts (same : session.SameSetting after) (accepted : session.Accepts target) :
    after.Accepts target where
  noTrouble := by
    rw [same.trouble]
    exact accepted.noTrouble
  shortPath := by
    rw [same.temporaryFor]
    exact accepted.shortPath
  shortName := by
    rw [same.temporaryName]
    exact accepted.shortName

theorem SameSetting.symm (same : session.SameSetting after) : after.SameSetting session where
  project := same.project.symm
  temporaryTag := same.temporaryTag.symm
  trouble := same.trouble.symm
  now := same.now.symm

end Session

namespace Workspace

variable {workspace : Workspace} {path target : Path}

/-- On the way to a place all names but the last have been followed. -/
theorem locateFrom_append {place found : Place} {names later : List String}
    (located : workspace.locateFrom place (names ++ later) = .ok found) :
    ∃ middle, workspace.locateFrom place names = .ok middle ∧
      workspace.locateFrom middle later = .ok found := by
  induction names generalizing place with
  | nil => exact ⟨place, rfl, located⟩
  | cons name names induction =>
      rw [List.cons_append, locateFrom.eq_def] at located
      dsimp only at located
      split at located
      · cases located
      · cases located
      · rename_i directory
        split at located
        · cases located
        · rename_i short
          split at located
          · rename_i up
            obtain ⟨middle, first, second⟩ := induction located
            refine ⟨middle, ?_, second⟩
            rw [up] at short ⊢
            simp [locateFrom, directory, Nat.not_lt.mp short, first]
          · rename_i down
            obtain ⟨middle, first, second⟩ := induction located
            refine ⟨middle, ?_, second⟩
            simp [locateFrom, directory, short, down, first]

theorem locateFrom_append_of_ok {place middle : Place} {names later : List String}
    (first : workspace.locateFrom place names = .ok middle) :
    workspace.locateFrom place (names ++ later) = workspace.locateFrom middle later := by
  induction names generalizing place with
  | nil =>
      cases first
      rfl
  | cons name names induction =>
      rw [locateFrom.eq_def] at first
      dsimp only at first
      split at first
      · cases first
      · cases first
      · rename_i directory
        split at first
        · cases first
        · rename_i short
          split at first
          · rename_i up
            rw [List.cons_append, locateFrom.eq_def]
            simp only [directory, if_neg short, if_pos up]
            exact induction first
          · rename_i down
            rw [List.cons_append, locateFrom.eq_def]
            simp only [directory, if_neg short, if_neg down]
            exact induction first

/-- Below a directory that was reached a path leads to its place, unless the path
or its last name is too long. -/
theorem locate_below {above : List String} {name : String} {place : Place}
    (whole : path.names = above ++ [name]) (reached : workspace.locateFrom [] above = .ok place)
    (directory : workspace.get? place = some .directory) :
    workspace.locate path =
      if pathLimit ≤ path.toString.utf8ByteSize ∨ nameLimit < name.utf8ByteSize then
        .error .nameTooLong
      else .ok path.place := by
  have last : workspace.locateFrom place [name] =
      if nameLimit < name.utf8ByteSize then .error .nameTooLong else .ok path.place := by
    unfold Path.place
    rw [whole, Path.follow_append, ← locateFrom_eq_follow reached]
    by_cases up : name = ".."
    · subst up
      rw [if_neg (by decide)]
      simp only [locateFrom, directory, Path.follow]
      rfl
    · simp [locateFrom, directory, Path.follow, up]
  unfold locate
  rw [whole, locateFrom_append_of_ok reached, last]
  by_cases long : pathLimit ≤ path.toString.utf8ByteSize
  · simp [long]
  · by_cases wide : nameLimit < name.utf8ByteSize
    · simp [long, wide]
    · simp [long, wide]

theorem locateFrom_above {place found : Place} {names : List String}
    (located : workspace.locateFrom place names = .ok found)
    (above : ∀ upper, upper <+: place → upper ≠ place →
      workspace.get? upper = some .directory) :
    ∀ upper, upper <+: found → upper ≠ found → workspace.get? upper = some .directory := by
  induction names generalizing place with
  | nil =>
      cases located
      exact above
  | cons name names induction =>
      rw [locateFrom.eq_def] at located
      dsimp only at located
      split at located
      · cases located
      · cases located
      · rename_i directory
        split at located
        · cases located
        · split at located
          · apply induction located
            intro upper lead _
            by_cases same : upper = place
            · rw [same]
              exact directory
            · exact above upper (lead.trans (List.dropLast_prefix place)) same
          · apply induction located
            intro upper lead proper
            rcases List.prefix_concat_iff.mp lead with whole | shorter
            · exact absurd whole proper
            · by_cases same : upper = place
              · rw [same]
                exact directory
              · exact above upper shorter same

/-- A path to a file does not end by going up. -/
theorem getLast?_ne_up {bytes : List UInt8} (read : workspace.readBytes path = .ok bytes) :
    path.names.getLast? ≠ some ".." := by
  intro last
  obtain ⟨located, mode, standing⟩ := readBytes_eq_ok_iff.mp read
  obtain ⟨above, whole⟩ := List.getLast?_eq_some_iff.mp last
  unfold locate at located
  split at located
  · cases located
  · rw [whole] at located
    obtain ⟨middle, first, second⟩ := locateFrom_append located
    have aboveMiddle := locateFrom_above first (by
      intro upper lead proper
      exact absurd (List.prefix_nil.mp lead) proper)
    rw [locateFrom.eq_def] at second
    dsimp only at second
    split at second
    · cases second
    · cases second
    · rename_i directory
      split at second
      · cases second
      · rw [if_pos rfl] at second
        have found : middle.dropLast = path.place := by
          simpa [locateFrom] using second
        have isDirectory : workspace.get? middle.dropLast = some .directory := by
          by_cases same : middle.dropLast = middle
          · rw [same]
            exact directory
          · exact aboveMiddle _ (List.dropLast_prefix middle) same
        rw [found, standing] at isDirectory
        cases isDirectory

theorem parent_of_file {bytes : List UInt8} (read : workspace.readBytes path = .ok bytes) :
    ∃ name, path.names = path.parent.names ++ [name] ∧ name ≠ ".." ∧
      workspace.locate path.parent = .ok path.parent.place ∧
        workspace.get? path.parent.place = some .directory ∧
          path.place = path.parent.place ++ [name] := by
  obtain ⟨located, mode, standing⟩ := readBytes_eq_ok_iff.mp read
  have short : path.toString.utf8ByteSize < pathLimit := by
    unfold locate at located
    split at located
    · cases located
    · omega
  have parentShort : path.parent.toString.utf8ByteSize < pathLimit := by
    have bound := path.parent_size
    have positive : 1 < pathLimit := by decide
    omega
  rcases List.eq_nil_or_concat path.names with empty | ⟨above, name, whole⟩
  · have root : path.place = [] := by simp [Path.place, empty, Path.follow]
    exact absurd root (ne_nil_of_file standing)
  · rw [List.concat_eq_append] at whole
    have parentNames : path.parent.names = above := by simp [Path.parent, whole]
    have down : name ≠ ".." := by
      intro up
      apply getLast?_ne_up read
      simp [whole, up]
    unfold locate at located
    rw [if_neg (by omega), whole] at located
    obtain ⟨middle, first, second⟩ := locateFrom_append located
    have sameMiddle : middle = path.parent.place := by
      rw [locateFrom_eq_follow first, Path.place, parentNames]
    subst sameMiddle
    have directory : workspace.get? path.parent.place = some .directory := by
      rw [locateFrom.eq_def] at second
      dsimp only at second
      split at second
      · cases second
      · cases second
      · assumption
    refine ⟨name, by rw [whole, parentNames], down, ?_, directory, ?_⟩
    · unfold locate
      rw [if_neg (by omega), parentNames, first]
    · unfold Path.place
      rw [whole, Path.follow_append, Path.follow_singleton down, parentNames]

theorem directory_of_passes {bytes : List UInt8} (read : workspace.readBytes path = .ok bytes)
    {place : Place} (passes : path.parent.Passes place) :
    workspace.get? place = some .directory := by
  obtain ⟨_, _, _, located, directory, _⟩ := parent_of_file read
  obtain ⟨names, ⟨rest, whole⟩, rfl⟩ := passes
  cases rest with
  | nil =>
      rw [List.append_nil] at whole
      rw [whole]
      exact directory
  | cons name rest =>
      unfold locate at located
      split at located
      · cases located
      · rw [← whole] at located
        obtain ⟨middle, first, second⟩ := locateFrom_append located
        rw [locateFrom_eq_follow first] at second
        rw [locateFrom.eq_def] at second
        dsimp only at second
        split at second
        · cases second
        · cases second
        · assumption

theorem ensureDirectories_of_directory {anchor : Anchor} {reversed : List String}
    (there : workspace.stat ⟨anchor, reversed.reverse⟩ = .ok .directory) :
    workspace.ensureDirectories anchor reversed = (workspace, none) := by
  cases reversed with
  | nil => rfl
  | cons name above =>
      obtain ⟨located, standing⟩ := stat_eq_ok_iff.mp there
      have already : workspace.makeDirectory ⟨anchor, (name :: above).reverse⟩ =
          .error .alreadyExists := by
        unfold makeDirectory
        rw [located]
        dsimp only
        split
        · rfl
        · simp only [standing]
      have isThere : workspace.isDirectory ⟨anchor, (name :: above).reverse⟩ = true := by
        simp only [isDirectory, there]
      unfold ensureDirectories
      simp only [already, isThere, if_true]

end Workspace

namespace Activity

variable {session : Session} {target : Path} {content : String} {bytes : List UInt8}

theorem makeParent_of_file (clean : target.hasNull = false)
    (read : session.workspace.readBytes target = .ok bytes) :
    makeParent target session =
      match troubleAt session target (· == .makingDirectory) with
      | some error => .error (.write (.directory error)) session
      | none => .ok () session := by
  obtain ⟨_, _, _, located, directory, _⟩ := Workspace.parent_of_file read
  have there : session.workspace.stat
      ⟨target.parent.anchor, target.parent.names.reverse.reverse⟩ = .ok .directory := by
    rw [List.reverse_reverse]
    exact Workspace.stat_eq_ok_iff.mpr ⟨located, directory⟩
  have unchanged := Workspace.ensureDirectories_of_directory there
  unfold makeParent
  rw [bind_of_ok (requirePath_eq_ok.mpr ⟨parent_hasNull clean, rfl⟩), get_bind]
  cases troubleAt session target (· == .makingDirectory) with
  | some error => rfl
  | none =>
      simp only [unchanged]
      rfl

theorem modeOf_of_file (clean : target.hasNull = false) {mode : Nat}
    (read : session.workspace.stat target = .ok (.file bytes mode)) :
    modeOf target session = .ok (some mode) session := by
  unfold modeOf
  rw [bind_of_ok (requirePath_eq_ok.mpr ⟨clean, rfl⟩), get_bind]
  have known : session.workspace.mode? target = .ok (some mode) := by
    simp only [Workspace.mode?, read]
  simp only [known]
  rfl

/-- Where the temporary file of a file that is there gets written, unless its
path is too long. -/
theorem locate_temporary (plain : session.HasPlainTag)
    (read : session.workspace.readBytes target = .ok bytes) :
    session.workspace.locate (temporaryFor session target) =
      if Workspace.pathLimit ≤ (temporaryFor session target).toString.utf8ByteSize ∨
          Workspace.nameLimit < session.temporaryName.utf8ByteSize then
        .error .nameTooLong
      else .ok (temporaryFor session target).place := by
  obtain ⟨_, _, _, located, directory, _⟩ := Workspace.parent_of_file read
  have followed : session.workspace.locateFrom [] target.parent.names =
      .ok target.parent.place := by
    unfold Workspace.locate at located
    split at located
    · cases located
    · exact located
  exact Workspace.locate_below (Session.temporaryFor_names plain target) followed directory

theorem troubleAt_of_none (noTrouble : session.trouble target = none)
    (stage : WriteStage → Bool) : troubleAt session target stage = none := by
  simp [troubleAt, noTrouble]

private theorem writeThrough_of_accepts (plain : session.HasPlainTag)
    (read : session.workspace.readBytes target = .ok bytes)
    (free : session.workspace.get? (temporaryFor session target).place ≠ some .directory)
    (accepted : session.Accepts target) (mode : Nat) (new : List UInt8) :
    ∃ workspace, writeThrough session (temporaryFor session target) target (some mode) new =
      (workspace, none) := by
  obtain ⟨located, oldMode, standing⟩ := Workspace.readBytes_eq_ok_iff.mp read
  have temporaryLocated : session.workspace.locate (temporaryFor session target) =
      .ok (temporaryFor session target).place := by
    rw [locate_temporary plain read, if_neg]
    have short := accepted.shortPath
    have narrow := accepted.shortName
    omega
  obtain ⟨written, stored⟩ := Workspace.writeBytes_of_free new temporaryLocated free
  obtain ⟨_, holds⟩ := Workspace.get?_writeBytes stored
  obtain ⟨last, ready⟩ := Workspace.get?_setMode holds mode
  have evolved := (@Workspace.writeBytes_evolves _ _ _ (fun _ => False) _ stored).trans
    (Workspace.setMode_evolves written (temporaryFor session target) mode)
  have targetFree : (written.setMode (temporaryFor session target) mode).get? target.place ≠
      some .directory := by
    by_cases same : target.place = (temporaryFor session target).place
    · rw [same, ready]
      simp
    · rw [evolved.get?_file same standing]
      simp
  have notHeld : ¬ (target.names = [] ∨ target.names.getLast? = some "..") := by
    rintro (empty | up)
    · obtain ⟨name, whole, _⟩ := Workspace.parent_of_file read
      simp [empty] at whole
    · exact Workspace.getLast?_ne_up read up
  obtain ⟨moved, success⟩ := Workspace.moveOver_of_file (evolved.locate temporaryLocated)
    (evolved.locate located) ready targetFree notHeld
  refine ⟨moved, ?_⟩
  unfold writeThrough
  simp only [accepted.noTrouble, troubleAt_of_none accepted.noTrouble, Option.map_none,
    Option.getD_none, List.take_length, stored, success]

/-- A temporary file that reached the target met no trouble on the way. -/
private theorem trouble_of_writeThrough {mode : Nat} {new : List UInt8} {workspace : Workspace}
    (success : writeThrough session (temporaryFor session target) target (some mode) new =
      (workspace, none)) :
    (∀ trouble, session.trouble target = some trouble → trouble.1 = .makingDirectory) ∧
      session.workspace.locate (temporaryFor session target) =
        .ok (temporaryFor session target).place := by
  unfold writeThrough at success
  dsimp only at success
  split at success
  · cases success
  · rename_i written stored
    refine ⟨?_, (Workspace.writeBytes_cases stored).1⟩
    rintro ⟨stage, error⟩ troubled
    cases stage with
    | makingDirectory => rfl
    | writingTemporary count =>
        rw [troubled] at success
        simp at success
    | settingMode =>
        have met : troubleAt session target (· == .settingMode) = some error := by
          simp [troubleAt, troubled]
        simp [troubled, met] at success
    | moving =>
        have passed : troubleAt session target (· == .settingMode) = none := by
          simp [troubleAt, troubled]
        have met : troubleAt session target (· == .moving) = some error := by
          simp [troubleAt, troubled]
        simp [troubled, passed, met] at success

/-- Over a file that is there no directory is made, whether writing succeeds or
not; when it fails the file stays. -/
theorem writeFile_evolves_of_file {allowed : Place → Prop}
    (read : session.workspace.readBytes target = .ok bytes) :
    (∀ after, writeFile target content session = .ok () after →
        Workspace.Evolves
          (fun place => place = (temporaryFor session target).place ∨ place = target.place)
          allowed session.workspace after.workspace) ∧
      ∀ failure after, writeFile target content session = .error failure after →
        Workspace.Evolves (· = (temporaryFor session target).place) allowed
          session.workspace after.workspace := by
  constructor
  · intro after success
    exact (writeFile_ok success).2.1.settled fun _ => Workspace.directory_of_passes read
  · intro failure after stopped
    exact (writeFile_error stopped).2.settled fun _ => Workspace.directory_of_passes read

theorem writeFile_of_accepts (plain : session.HasPlainTag) (clean : target.hasNull = false)
    (read : session.workspace.readBytes target = .ok bytes)
    (free : session.workspace.get? (temporaryFor session target).place ≠ some .directory)
    (accepted : session.Accepts target) :
    ∃ after, writeFile target content session = .ok () after := by
  obtain ⟨located, mode, standing⟩ := Workspace.readBytes_eq_ok_iff.mp read
  obtain ⟨workspace, success⟩ := writeThrough_of_accepts plain read free accepted mode
    (Text.encode content.toList)
  have made : makeParent target session = .ok () session := by
    rw [makeParent_of_file clean read, troubleAt_of_none accepted.noTrouble]
  have asked := modeOf_of_file clean (Workspace.stat_eq_ok_iff.mpr ⟨located, standing⟩)
  unfold temporaryFor at success
  unfold writeFile
  rw [bind_of_ok made, bind_of_ok asked, get_bind]
  simp only [success, set_bind, log_apply]
  exact ⟨_, rfl⟩

/-- A file that is there is not written when the session does not accept it, and
the failure is one of writing. -/
theorem writeFile_of_refused (plain : session.HasPlainTag) (clean : target.hasNull = false)
    (read : session.workspace.readBytes target = .ok bytes)
    (refused : ¬ session.Accepts target) :
    ∃ cause after, writeFile target content session = .error (.write cause) after := by
  obtain ⟨located, mode, standing⟩ := Workspace.readBytes_eq_ok_iff.mp read
  have asked := modeOf_of_file clean (Workspace.stat_eq_ok_iff.mpr ⟨located, standing⟩)
  unfold writeFile
  cases trouble : troubleAt session target (· == .makingDirectory) with
  | some error =>
      have stopped : makeParent target session = .error (.write (.directory error)) session := by
        rw [makeParent_of_file clean read, trouble]
      rw [bind_of_error stopped]
      exact ⟨_, _, rfl⟩
  | none =>
      have made : makeParent target session = .ok () session := by
        rw [makeParent_of_file clean read, trouble]
      rw [bind_of_ok made, bind_of_ok asked, get_bind]
      cases attempted : writeThrough session (temporaryFor session target) target (some mode)
          (Text.encode content.toList) with
      | mk workspace error =>
          cases error with
          | some error =>
              unfold temporaryFor at attempted
              simp only [attempted, set_bind]
              exact ⟨_, _, rfl⟩
          | none =>
              obtain ⟨early, temporaryLocated⟩ := trouble_of_writeThrough attempted
              refine absurd ?_ refused
              have noTrouble : session.trouble target = none := by
                cases known : session.trouble target with
                | none => rfl
                | some found =>
                    have stage := early found known
                    simp [troubleAt, known, stage] at trouble
              rw [locate_temporary plain read] at temporaryLocated
              split at temporaryLocated
              · cases temporaryLocated
              · rename_i short
                exact ⟨noTrouble, by omega, by omega⟩

/-- A write over a file that is there succeeds only if the session accepts it. -/
theorem accepts_of_writeFile (plain : session.HasPlainTag) (clean : target.hasNull = false)
    (read : session.workspace.readBytes target = .ok bytes)
    (success : writeFile target content session = .ok () after) : session.Accepts target := by
  by_cases accepted : session.Accepts target
  · exact accepted
  · obtain ⟨_, _, stop⟩ := writeFile_of_refused plain clean read accepted
    rw [success] at stop
    cases stop

end Activity

end Restyle
