import Restyle.Promotion
import Restyle.Proofs.Stylesheet.Receiving

/-!
# What one promotion makes of the stylesheet

A promotion that is not refused writes the stylesheet with its block at the end.
What a later reader sees is that block with its line breaks unified, since a
pattern may hold carriage returns.
-/

namespace Restyle

open Text Activity

def readBack (text : String) : String := String.ofList (unifyBreaks text.toList)

/-- A section as it is read back.  Only a promoted pattern can hold carriage returns. -/
def Section.asRead : Section → Section
  | .promoted name block => .promoted name (readBack block)
  | other => other

/-- The session at the end of an activity. -/
def Activity.sessionOf {α : Type} : EStateM.Result Failure Session α → Session
  | .ok _ session => session
  | .error _ session => session

namespace Promotion

variable {stylesheet : Path} {name pattern content : String} {apply : Bool}
  {session after : Session} {promotion : Promotion} {failure : Failure}
  {outcome : EStateM.Result Failure Session Promotion}

theorem propose_eq_ok (proposed : propose stylesheet name pattern = .ok promotion) :
    promotion.name = String.ofList (trim name.toList) ∧
      promotion.pattern = String.ofList (trim pattern.toList) ∧
        promotion.block = utilityBlock promotion.name promotion.pattern ∧
          promotion.applied = false := by
  unfold propose at proposed
  dsimp only at proposed
  split at proposed
  · cases proposed
  · split at proposed
    · cases proposed
    · cases proposed
      exact ⟨rfl, rfl, rfl, rfl⟩

theorem propose_of_some (named : trim name.toList ≠ []) (some : trim pattern.toList ≠ []) :
    ∃ promotion, propose stylesheet name pattern = .ok promotion := by
  have kept : ∀ {text : List Char}, text ≠ [] → String.ofList text ≠ "" := by
    intro text some same
    apply some
    rw [← String.toList_ofList (l := text), same]
    rfl
  unfold propose
  rw [if_neg (kept some), if_neg (kept named)]
  exact ⟨_, rfl⟩

/-- Whether a failure is that a utility is defined already. -/
def IsRepetition (failure : Failure) : Prop :=
  ∃ name path, failure = .promotion (.alreadyDefined name path)

/-- What a promotion comes to. -/
inductive Promotes (stylesheet : Path) (name pattern : String) (apply : Bool)
    (session : Session) : EStateM.Result Failure Session Promotion → Prop where
  | improper {failure : Failure} (refused : propose stylesheet name pattern = .error failure)
      (other : ¬ IsRepetition failure) :
      Promotes stylesheet name pattern apply session (.error failure session)
  | previewed {promotion : Promotion}
      (proposed : propose stylesheet name pattern = .ok promotion) (calm : apply = false) :
      Promotes stylesheet name pattern apply session (.ok promotion session)
  | unread {failure : Failure} (applying : apply = true)
      (unread : stylesheet.hasNull = true ∨
        ∃ failure, session.workspace.readText stylesheet = .error failure)
      (other : ¬ IsRepetition failure) :
      Promotes stylesheet name pattern apply session (.error failure session)
  | repeated {promotion : Promotion} {content : String}
      (proposed : propose stylesheet name pattern = .ok promotion) (applying : apply = true)
      (clean : stylesheet.hasNull = false)
      (read : session.workspace.readText stylesheet = .ok content)
      (defined : defines promotion.name.toList content.toList = true) :
      Promotes stylesheet name pattern apply session
        (.error (.promotion (.alreadyDefined promotion.name stylesheet)) session)
  | unwritten {promotion : Promotion} {content : String} {failure : Failure} {after : Session}
      (proposed : propose stylesheet name pattern = .ok promotion) (applying : apply = true)
      (clean : stylesheet.hasNull = false)
      (read : session.workspace.readText stylesheet = .ok content)
      (new : defines promotion.name.toList content.toList = false)
      (stopped : writeFile stylesheet (appended content promotion.name promotion.block) session =
        .error failure after) (other : ¬ IsRepetition failure) :
      Promotes stylesheet name pattern apply session (.error failure after)
  | written {promotion : Promotion} {content : String} {wrote after : Session}
      (proposed : propose stylesheet name pattern = .ok promotion) (applying : apply = true)
      (clean : stylesheet.hasNull = false)
      (read : session.workspace.readText stylesheet = .ok content)
      (new : defines promotion.name.toList content.toList = false)
      (success : writeFile stylesheet (appended content promotion.name promotion.block) session =
        .ok () wrote) (quiet : wrote.Quiet after) :
      Promotes stylesheet name pattern apply session (.ok { promotion with applied := true } after)

theorem run_promotes (stylesheet : Path) (name pattern : String) (apply : Bool)
    (session : Session) :
    Promotes stylesheet name pattern apply session
      (run stylesheet name pattern apply session) := by
  have plainly : ∀ {failure : Failure}, (∀ cause, failure ≠ .promotion cause) →
      ¬ IsRepetition failure := by
    rintro _ other ⟨_, _, rfl⟩
    exact other _ rfl
  unfold run
  cases proposed : propose stylesheet name pattern with
  | error failure =>
      have refused : Activity.lift (propose stylesheet name pattern) session =
          .error failure session := by rw [proposed]; rfl
      rw [proposed] at refused
      rw [bind_of_error refused]
      refine .improper proposed ?_
      unfold propose at proposed
      dsimp only at proposed
      rintro ⟨_, _, rfl⟩
      split at proposed
      · cases proposed
      · split at proposed <;> cases proposed
  | ok promotion =>
      rw [bind_of_ok (lift_eq_ok.mpr ⟨rfl, rfl⟩)]
      cases apply with
      | false => exact .previewed proposed rfl
      | true =>
          rw [if_neg (by simp)]
          cases clean : stylesheet.hasNull with
          | true =>
              rw [bind_of_error (readText_of_null clean)]
              exact .unread rfl (Or.inl clean) (plainly (by simp))
          | false =>
              rw [bind_of_ok (readText_apply clean)]
              cases read : session.workspace.readText stylesheet with
              | error failure =>
                  cases missing : failure.isMissing with
                  | true =>
                      simp only [missing, if_true]
                      exact .unread rfl (Or.inr ⟨_, read⟩) (by rintro ⟨_, _, ⟨⟩⟩)
                  | false =>
                      simp only [missing, Bool.false_eq_true, if_false]
                      exact .unread rfl (Or.inr ⟨_, read⟩) (by rintro ⟨_, _, ⟨⟩⟩)
              | ok content =>
                  cases defined : defines promotion.name.toList content.toList with
                  | true =>
                      simp only [defined, if_true]
                      exact .repeated proposed rfl clean read defined
                  | false =>
                      simp only [defined, Bool.false_eq_true, if_false]
                      cases written : writeFile stylesheet
                          (appended content promotion.name promotion.block) session with
                      | error failure after =>
                          rw [bind_of_error written]
                          refine .unwritten proposed rfl clean read defined written (plainly ?_)
                          obtain ⟨_, rfl⟩ | ⟨_, rfl⟩ | ⟨rfl, _⟩ := writeFile_failure written
                          · simp
                          · simp
                          · simp
                      | ok result wrote =>
                          rw [bind_of_ok written]
                          exact .written proposed rfl clean read defined written
                            (log_quiet (log_apply _ _ _))

/-- The sections that the stylesheet receives from a promotion. -/
def added : EStateM.Result Failure Session Promotion → List Section
  | .ok promotion _ =>
      if promotion.applied then [.promoted promotion.name promotion.block] else []
  | .error _ _ => []

theorem toList_utilityBlock (name pattern : String) :
    (utilityBlock name pattern).toList =
      ("@utility " ++ name ++ " \x7b\n  @apply ").toList ++
        (pattern.toList ++ ';' :: ['\n', '\x7d']) := by
  simp only [utilityBlock, String.toList_append, List.append_assoc]
  rfl

theorem return_not_mem_opening (absent : '\r' ∉ name.toList) :
    '\r' ∉ ("@utility " ++ name ++ " \x7b\n  @apply ").toList := by
  simp only [String.toList_append, List.mem_append, not_or]
  exact ⟨⟨by decide, absent⟩, by decide⟩

theorem readBack_utilityBlock (absent : '\r' ∉ name.toList) (pattern : String) :
    readBack (utilityBlock name pattern) = utilityBlock name (readBack pattern) := by
  apply String.toList_inj.mp
  rw [readBack, String.toList_ofList, toList_utilityBlock, toList_utilityBlock, readBack,
    String.toList_ofList,
    unifyBreaks_between (return_not_mem_opening absent) (by decide) (by decide)]

/-- A stylesheet with a promoted block at its end, as it is read back. -/
theorem readBack_appended (clean : '\r' ∉ content.toList) (absent : '\r' ∉ name.toList)
    (pattern : String) :
    readBack (appended content name (utilityBlock name pattern)) =
      grown content [.promoted name (readBack (utilityBlock name pattern))] := by
  have parts : ∀ pattern : String,
      (appended content name (utilityBlock name pattern)).toList =
        (trimRight content.toList ++ ("\n\n/* north promote: " ++ name ++ " */\n").toList ++
          ("@utility " ++ name ++ " \x7b\n  @apply ").toList) ++
            (pattern.toList ++ ';' :: ['\n', '\x7d', '\n']) := by
    intro pattern
    simp only [appended, utilityBlock, String.toList_append, String.toList_ofList,
      List.append_assoc]
    rfl
  have leading : '\r' ∉ trimRight content.toList ++
      ("\n\n/* north promote: " ++ name ++ " */\n").toList ++
        ("@utility " ++ name ++ " \x7b\n  @apply ").toList := by
    simp only [String.toList_append, List.mem_append, not_or]
    exact ⟨⟨fun member => clean (mem_of_mem_trimRight member), ⟨by decide, absent⟩, by decide⟩,
      ⟨by decide, absent⟩, by decide⟩
  rw [← appended_eq_grown, readBack_utilityBlock absent]
  apply String.toList_inj.mp
  rw [readBack, String.toList_ofList, parts, parts, readBack, String.toList_ofList,
    unifyBreaks_between leading (by decide) (by decide)]

theorem return_not_mem_name {proposed : String}
    (named : proposed = String.ofList (trim name.toList)) (absent : '\r' ∉ name.toList) :
    '\r' ∉ proposed.toList := by
  rw [named, String.toList_ofList]
  exact fun member => absent (mem_of_mem_trim member)

theorem Promotes.receives (promotes : Promotes stylesheet name pattern apply session outcome)
    (plain : session.HasPlainTag) (unnamed : session.temporaryName ∉ stylesheet.place)
    (absent : '\r' ∉ name.toList) :
    Receives stylesheet ((added outcome).map Section.asRead) session.workspace
      (sessionOf outcome).workspace := by
  have unharmed : Receives stylesheet [] session.workspace session.workspace :=
    .of_evolves (.refl (fun _ => False) (fun _ => False) _) id
  cases promotes with
  | improper _ _ => exact unharmed
  | previewed proposed _ =>
      rw [added, (propose_eq_ok proposed).2.2.2]
      exact unharmed
  | unread _ _ _ => exact unharmed
  | repeated _ _ _ _ _ => exact unharmed
  | unwritten _ _ _ _ _ stopped _ =>
      exact .of_evolves (writeFile_error stopped).2 (Migration.temporary_ne plain unnamed _)
  | @written promotion content wrote after proposed _ _ read _ success quiet =>
      obtain ⟨named, _, blocked, _⟩ := propose_eq_ok proposed
      have trimmed := return_not_mem_name named absent
      refine ⟨fun text shows => ?_, by simp [added]⟩
      obtain rfl := shows.eq_of_read read
      have again := Workspace.Shows.of_written ((writeFile_ok success).2.2)
      have stands := readBack_appended shows.return_not_mem trimmed promotion.pattern
      rw [readBack, ← blocked] at stands
      rw [stands] at again
      simpa [added, sessionOf, Section.asRead, quiet.workspace] using again

/-- A promotion adds nothing, or the block of its name and pattern. -/
theorem Promotes.added_cases (promotes : Promotes stylesheet name pattern apply session outcome) :
    added outcome = [] ∨
      ∃ promotion, propose stylesheet name pattern = .ok promotion ∧
        added outcome = [.promoted promotion.name promotion.block] := by
  cases promotes with
  | written proposed _ _ _ _ _ _ => exact Or.inr ⟨_, proposed, rfl⟩
  | previewed proposed _ =>
      rw [added, (propose_eq_ok proposed).2.2.2]
      exact Or.inl rfl
  | _ => exact Or.inl rfl

theorem Promotes.added_of_preview
    (promotes : Promotes stylesheet name pattern apply session outcome) (calm : apply = false) :
    added outcome = [] := by
  cases promotes with
  | previewed proposed _ =>
      rw [added, (propose_eq_ok proposed).2.2.2]
      rfl
  | written _ applying _ _ _ _ _ =>
      rw [calm] at applying
      cases applying
  | _ => rfl

theorem added_of_ok (returned : run stylesheet name pattern true session = .ok promotion after) :
    added (run stylesheet name pattern true session) =
      [.promoted (String.ofList (trim name.toList))
        (utilityBlock (String.ofList (trim name.toList)) (String.ofList (trim pattern.toList)))] := by
  have promotes := run_promotes stylesheet name pattern true session
  rw [returned] at promotes ⊢
  cases promotes with
  | previewed _ calm => cases calm
  | written proposed _ _ _ _ _ _ =>
      obtain ⟨named, patterned, blocked, _⟩ := propose_eq_ok proposed
      rw [added, if_pos rfl, blocked, named, patterned]

theorem Promotes.closed (promotes : Promotes stylesheet name pattern apply session outcome)
    (absent : '\r' ∉ name.toList) :
    ∀ piece ∈ (added outcome).map Section.asRead, piece.IsClosed := by
  rcases promotes.added_cases with none | ⟨promotion, proposed, one⟩
  · simp [none]
  · obtain ⟨named, _, blocked, _⟩ := propose_eq_ok proposed
    have trimmed := return_not_mem_name named absent
    rw [one, blocked]
    simp only [List.map_cons, List.map_nil, List.mem_singleton, forall_eq, Section.asRead,
      readBack_utilityBlock trimmed]
    exact closed_promoted _ _ _

end Promotion

end Restyle
