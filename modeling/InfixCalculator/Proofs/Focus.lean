import InfixCalculator.Proofs.Runs
import InfixCalculator.Session.Screen
import Mathlib.Data.List.DropRight
import Mathlib.Data.List.Induction

/-!
# When Enter evaluates

The focus goes from one frame to the next: a click on something that the screen shows
hands it to the entry field, an evaluation by Enter hands it back, and in any other
frame the field gives it up.  A refused or blank evaluation is no exception.

If the field has the focus only in frames that ask for it, Enter evaluates after a run
exactly when nothing but Enter happened in the frames since the latest such click, or
since the start.
-/

namespace InfixCalculator
namespace Session

open Widget

/-! ## Clicks on what is shown -/

/-- Whether the event is a click on something that the screen shows. -/
def shows (session : Session) (event : Event) : Bool :=
  session.screen.any fun widget => widget.event? == some event

theorem shows_iff {session : Session} {event : Event} :
    session.shows event = true ↔ ∃ widget ∈ session.screen, widget.event? = some event := by
  simp [shows]

theorem mem_screen_iff {session : Session} {widget : Widget} (hevent : widget.event? ≠ none) :
    widget ∈ session.screen ↔
      widget ∈ Screen.actions ++ Screen.pad ∨ widget ∈ Screen.history session.history := by
  have hlabel (text : String) : widget ≠ label text := by
    rintro rfl
    exact hevent rfl
  have hfield (text : String) : widget ≠ field text := by
    rintro rfl
    exact hevent rfl
  have hheader (text : String) : widget ≠ header text := by
    rintro rfl
    exact hevent rfl
  have herror : widget ∉ (if session.error = "" then [] else [label session.error]) := by
    split <;> simp [hlabel]
  simp [screen, hlabel, hfield, hheader, herror, or_assoc]

theorem button_mem_panel_iff (b : Button) :
    button b ∈ Screen.actions ++ Screen.pad ↔ b ≠ .clearHistory := by
  cases b with
  | key k =>
      cases k with
      | digit d => revert d; decide
      | operator op => cases op <;> decide
      | _ => decide
  | _ => decide

theorem button_mem_history_iff (history : History) (b : Button) :
    button b ∈ Screen.history history ↔ b = .clearHistory ∧ history.entries ≠ [] := by
  unfold Screen.history
  by_cases hempty : history.entries = []
  · simp [hempty]
  · simp [hempty, List.mem_mapIdx]

theorem line_mem_history_iff (history : History) (number : Nat) (entry : Entry) :
    line number entry ∈ Screen.history history ↔ history.line? number = some entry := by
  unfold Screen.history History.line?
  by_cases hempty : history.entries = []
  · simp [hempty]
  · rw [if_neg (by simpa using hempty)]
    generalize history.entries.reverse = lines
    simp [List.mem_mapIdx, List.getElem?_eq_some_iff]

theorem line_notMem_panel (number : Nat) (entry : Entry) :
    line number entry ∉ Screen.actions ++ Screen.pad := by
  simp [Screen.actions, Screen.pad, key, digit]

theorem shows_click (session : Session) (b : Button) :
    session.shows (.click b) = session.offers b := by
  have hevent (widget : Widget) : widget.event? = some (.click b) ↔ widget = button b := by
    cases widget <;> simp [event?]
  have hscreen : button b ∈ session.screen ↔ _ := mem_screen_iff (by simp [event?])
  rw [Bool.eq_iff_iff, shows_iff]
  simp only [hevent, exists_eq_right, hscreen, button_mem_panel_iff, button_mem_history_iff]
  cases b <;> simp [offers]

theorem shows_restore (session : Session) (number : Nat) :
    session.shows (.restore number) = (session.history.line? number).isSome := by
  have hevent (widget : Widget) :
      widget.event? = some (.restore number) ↔ ∃ entry, widget = line number entry := by
    cases widget <;> simp [event?]
  have hscreen (entry : Entry) : line number entry ∈ session.screen ↔
      session.history.line? number = some entry := by
    rw [mem_screen_iff (by simp [event?]), line_mem_history_iff]
    exact or_iff_right (line_notMem_panel number entry)
  rw [Bool.eq_iff_iff, shows_iff, Option.isSome_iff_exists]
  constructor
  · rintro ⟨widget, hmem, hclick⟩
    obtain ⟨entry, rfl⟩ := (hevent widget).mp hclick
    exact ⟨entry, (hscreen entry).mp hmem⟩
  · rintro ⟨entry, hline⟩
    exact ⟨line number entry, (hscreen entry).mpr hline, rfl⟩

/-! ## One frame -/

variable [Toolkit]

/-- Enter would evaluate the entry in the next frame. -/
def EnterEvaluates (session : Session) : Prop :=
  session.mark? (.frame .enter) = some session.evaluationMark

theorem enterEvaluates_iff (session : Session) :
    session.EnterEvaluates ↔ Toolkit.hasFocus session.focused = true := by
  simp [EnterEvaluates, mark?]

/-- A frame leaves the focus to the field after a click on something shown and after an
evaluation with Enter. -/
theorem focused_frame_iff (session : Session) (event : Event) :
    (session.frame event).focused = true ↔
      session.shows event = true ∨ (event = .enter ∧ session.EnterEvaluates) := by
  have hwidget (widget : Widget) : widget.event? ≠ some .idle ∧ widget.event? ≠ some .enter ∧
      widget.event? ≠ some .escape := by
    cases widget <;> simp [event?]
  cases event with
  | idle => simp [frame, blur, shows, hwidget]
  | escape => simp [frame, blur, shows, hwidget]
  | enter =>
      rw [enterEvaluates_iff]
      by_cases hfocus : Toolkit.hasFocus session.focused = true
      · simp [frame, shows, hwidget, hfocus, session.focused_evaluate]
      · simp [frame, blur, shows, hwidget, hfocus]
  | click b =>
      rw [session.shows_click]
      by_cases hoffers : session.offers b = true
      · simp [frame, hoffers, session.focused_click]
      · simp [frame, hoffers, blur]
  | restore number =>
      rw [session.shows_restore]
      cases hline : session.history.line? number with
      | none => simp [frame, hline, blur]
      | some entry => simp [frame, hline, restore]

/-! ## The frames of a run -/

/-- The frames of a run, each with the session that it is drawn from. -/
def frames (session : Session) : List Action → List (Session × Event)
  | [] => []
  | .type text :: actions => (session.act (.type text)).frames actions
  | .frame event :: actions => (session, event) :: (session.frame event).frames actions

/-- The events of the frames since the latest click on something shown, or since the
start. -/
def eventsSinceClick (session : Session) (actions : List Action) : List Event :=
  ((session.frames actions).rtakeWhile fun frame => !frame.1.shows frame.2).map Prod.snd

theorem frames_append (session : Session) (first second : List Action) :
    session.frames (first ++ second) =
      session.frames first ++ (session.run first).frames second := by
  induction first generalizing session with
  | nil => rfl
  | cons action first ih =>
      cases action with
      | type text => exact ih _
      | frame event => exact congrArg _ (ih _)

theorem eventsSinceClick_concat_type (session : Session) (actions : List Action)
    (text : String) :
    session.eventsSinceClick (actions ++ [.type text]) = session.eventsSinceClick actions := by
  simp [eventsSinceClick, frames_append, frames]

theorem eventsSinceClick_concat_frame (session : Session) (actions : List Action)
    (event : Event) :
    session.eventsSinceClick (actions ++ [.frame event]) =
      if (session.run actions).shows event then []
      else session.eventsSinceClick actions ++ [event] := by
  unfold eventsSinceClick
  rw [frames_append, frames, frames]
  by_cases hshown : (session.run actions).shows event = true
  · rw [if_pos hshown, List.rtakeWhile_concat_neg _ _ _ (by simpa using hshown), List.map_nil]
  · rw [if_neg hshown, List.rtakeWhile_concat_pos _ _ _ (by simpa using hshown), List.map_append]
    rfl

theorem focused_run_iff (hfocus : Toolkit.FocusFollowsRequest) (history : History)
    (actions : List Action) :
    ((start history).run actions).focused = true ↔
      ∀ event ∈ (start history).eventsSinceClick actions, event = .enter := by
  -- From the latest action, which ends the frames with Enter or adds to them.
  induction actions using List.reverseRecOn with
  | nil => simp [run, start, eventsSinceClick, frames]
  | append_singleton actions last ih =>
      rw [run_concat]
      cases last with
      | type text =>
          rw [eventsSinceClick_concat_type]
          exact ih
      | frame event =>
          rw [act, focused_frame_iff, enterEvaluates_iff, hfocus, ih,
            eventsSinceClick_concat_frame]
          split
          next hshown => simp [hshown]
          next hshown => simp [hshown, or_imp, forall_and, and_comm]

end Session

/-- After a run Enter evaluates exactly when every frame since the latest click on
something shown, or since the start, was one with Enter.  Otherwise it changes
nothing.  The focus is left to the field by such a click and by an evaluation with
Enter, and by nothing else. -/
theorem enter_evaluates_iff [Toolkit] (hfocus : Toolkit.FocusFollowsRequest) (requested : Nat)
    (actions : List Action) :
    let started := Session.start (.empty requested)
    let session := started.run actions
    (session.EnterEvaluates ↔ ∀ event ∈ started.eventsSinceClick actions, event = .enter) ∧
      (session.EnterEvaluates → session.frame .enter = session.evaluate) ∧
      (¬session.EnterEvaluates → session.frame .enter = session) ∧
      ∀ event, (session.frame event).focused = true ↔
        session.shows event = true ∨ (event = .enter ∧ session.EnterEvaluates) := by
  intro started session
  have hevaluates := session.enterEvaluates_iff
  refine ⟨?_, ?_, ?_, session.focused_frame_iff⟩
  · rw [hevaluates, hfocus]
    exact Session.focused_run_iff hfocus (.empty requested) actions
  · intro henter
    exact if_pos (hevaluates.mp henter)
  · intro henter
    have hfocused : session.focused = false := by
      rw [hevaluates, hfocus] at henter
      exact Bool.eq_false_iff.mpr henter
    calc
      session.frame .enter = session.blur := if_neg (mt hevaluates.mpr henter)
      _ = session := by rw [Session.blur, ← hfocused]

/-- An idle frame takes the focus away, and a text typed after it does not bring it
back. -/
theorem enter_evaluates_iff_idle :
    let started := Session.start (.empty 50)
    let session := started.run [.frame .idle, .type "1+1"]
    Toolkit.FocusFollowsRequest ∧ ¬session.EnterEvaluates ∧ session.frame .enter = session ∧
      ∀ event, (session.frame event).focused = true ↔
        session.shows event = true ∨ (event = .enter ∧ session.EnterEvaluates) := by
  intro started session
  have hfocus : Toolkit.FocusFollowsRequest := fun _ => rfl
  obtain ⟨hevaluates, -, hkept, hfocused⟩ :=
    enter_evaluates_iff hfocus 50 [.frame .idle, .type "1+1"]
  have hevents : started.eventsSinceClick [.frame .idle, .type "1+1"] = [.idle] := by decide
  have henter : ¬session.EnterEvaluates := by
    rw [hevaluates, hevents]
    decide
  exact ⟨hfocus, henter, hkept henter, hfocused⟩

end InfixCalculator
