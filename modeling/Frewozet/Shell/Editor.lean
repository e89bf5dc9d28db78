import Frewozet.Base.Line
import Frewozet.Shell.History

/-!
# The line editor as its user sees it

* `Editor` — a line with a cursor, the entries of the history with the newest first,
  which of them is viewed, and the line that was left for it.
* `Key.edit` — what a key does to it; `editAll_typeText` — what typing a text does.
* `Editor.Over` — all its characters are of a kind; `Over.edit` — no key makes one up.
* `Key.effect` — what a key does to the screen: nothing, a redrawn line, a line erased
  and redrawn, or a new prompt.
-/

namespace Frewozet

/-- A line editor with a history. -/
structure Editor where
  line : Line U8 := .empty
  entries : List (List U8) := []
  /-- Which entry is in the line. -/
  view : Option Nat := none
  /-- The line as it was before the history was entered. -/
  saved : Line U8 := .empty

namespace Editor

/-- Submit the line. -/
def enter (e : Editor) : Editor where
  entries := record e.line.text e.entries

/-- The line is full; one character more empties it. -/
def Full (e : Editor) : Prop := SHELL_BUFFER_SIZE - 1 ≤ e.line.text.length

instance (e : Editor) : Decidable e.Full := inferInstanceAs (Decidable (_ ≤ _))

theorem not_full {e : Editor} {text : List U8} (h : e.line = .ofText text)
    (hroom : text.length < SHELL_BUFFER_SIZE - 1) : ¬ e.Full := by
  rw [Full, h]
  exact Nat.not_le.2 hroom

/-- A character is typed. -/
def typed (c : U8) (e : Editor) : Editor :=
  if c = NEWLINE then e.enter
  else if c = BACKSPACE then { e with line := e.line.deleteBefore, view := none }
  else if e.Full then { e with line := .empty, view := none }
  else { e with line := e.line.insert c, view := none }

/-- The `k`-th newest entry goes into the line. -/
def load (k : Nat) (e : Editor) : Editor :=
  { e with line := .ofText (e.entries[k]?.getD []), view := some k }

/-- To the next older entry. -/
def older (e : Editor) : Editor :=
  match e.view with
  | none => if e.entries = [] then e else { e with saved := e.line }.load 0
  | some k => if k + 1 < e.entries.length then e.load (k + 1) else e

/-- To the next newer entry, and from the newest back to the line that was left. -/
def newer (e : Editor) : Editor :=
  match e.view with
  | none => e
  | some 0 => { e with line := e.saved, view := none }
  | some (k + 1) => e.load k

end Editor

/-- What a key does. -/
def Key.edit (key : Key) (e : Editor) : Editor :=
  match key with
  | .char c => e.typed c
  | .moveLeft => { e with line := e.line.left }
  | .moveRight => { e with line := e.line.right }
  | .moveHome => { e with line := e.line.home }
  | .moveEnd => { e with line := e.line.toEnd }
  | .deleteForward => { e with line := e.line.deleteAt }
  | .historyPrev => e.older
  | .historyNext => e.newer

/-- What a row of keys does. -/
def editAll (events : List Event) (e : Editor) : Editor :=
  events.foldl (fun e event => event.key.edit e) e

/-- The keys for a text. -/
def typeText (commands : Commands) (text : List U8) : List Event :=
  text.filterMap fun c => if h : c ≠ 0 then some ⟨.char ⟨c, h⟩, commands⟩ else none

theorem typeText_cons (commands : Commands) {c : U8} (h : c ≠ 0) (text : List U8) :
    typeText commands (c :: text) = ⟨.char ⟨c, h⟩, commands⟩ :: typeText commands text := by
  rw [typeText, List.filterMap_cons_some (dif_pos h)]
  rfl

/-- **Typing a text** puts it behind what is in the line, if there is room for it. -/
theorem editAll_typeText (commands : Commands) : ∀ {text before : List U8} {e : Editor},
    e.line = .ofText before → (∀ c ∈ text, c ≠ 0 ∧ c ≠ NEWLINE ∧ c ≠ BACKSPACE) →
      before.length + text.length ≤ SHELL_BUFFER_SIZE - 1 →
        (editAll (typeText commands text) e).line = .ofText (before ++ text) ∧
          (editAll (typeText commands text) e).entries = e.entries := by
  intro text
  induction text with
  | nil => exact fun h _ _ => ⟨by rw [List.append_nil]; exact h, rfl⟩
  | cons c text ih =>
    intro before e hline hplain hroom
    obtain ⟨h0, hnewline, hback⟩ := hplain c List.mem_cons_self
    rw [List.length_cons] at hroom
    have hfull := Editor.not_full hline (by omega)
    have htyped : Key.edit (.char ⟨c, h0⟩) e =
        { e with line := e.line.insert c, view := none } := by
      rw [Key.edit, Editor.typed, if_neg hnewline, if_neg hback, if_neg hfull]
    have hinsert : (e.line.insert c) = .ofText (before ++ [c]) := by
      rw [hline]
      refine Line.ext ?_ ?_
      · exact List.insertIdx_length_self
      · change before.length + 1 = (before ++ [c]).length
        rw [List.length_append, List.length_singleton]
    rw [typeText_cons commands h0, editAll, List.foldl_cons, htyped, hinsert]
    have hrest := @ih (before ++ [c]) { e with line := .ofText (before ++ [c]), view := none } rfl
      (fun d hd => hplain d (List.mem_cons_of_mem c hd)) (by
        rw [List.length_append, List.length_singleton]
        omega)
    rw [List.append_assoc] at hrest
    exact hrest

/-! ## What its texts are made of -/

/-- Every character of the editor is of a kind. -/
structure Editor.Over (P : U8 → Prop) (e : Editor) : Prop where
  line : ∀ c ∈ e.line.text, P c
  saved : ∀ c ∈ e.saved.text, P c
  entries : ∀ text ∈ e.entries, ∀ c ∈ text, P c

namespace Editor.Over

variable {P : U8 → Prop} {e : Editor}

theorem empty : Editor.Over P {} := ⟨nofun, nofun, nofun⟩

theorem withLine (h : e.Over P) {l : Line U8} (hl : ∀ c ∈ l.text, c ∈ e.line.text)
    (view : Option Nat) : Editor.Over P { e with line := l, view := view } :=
  ⟨fun c hc => h.line c (hl c hc), h.saved, h.entries⟩

theorem enter (h : e.Over P) : e.enter.Over P := by
  refine ⟨nofun, nofun, ?_⟩
  change ∀ text ∈ record e.line.text e.entries, _
  unfold record
  split
  · exact h.entries
  · intro text htext
    rcases List.mem_cons.1 (List.mem_of_mem_take htext) with rfl | hmem
    · exact h.line
    · exact h.entries text hmem

theorem typed (h : e.Over P) {c : U8} (hc : c ≠ NEWLINE → c ≠ BACKSPACE → P c) :
    (e.typed c).Over P := by
  unfold Editor.typed
  split
  · exact h.enter
  rename_i henter
  split
  · exact h.withLine (fun _ => Line.mem_deleteBefore) none
  rename_i hback
  split
  · exact ⟨nofun, h.saved, h.entries⟩
  · refine ⟨fun d hd => ?_, h.saved, h.entries⟩
    rcases Line.mem_insert hd with rfl | hmem
    · exact hc henter hback
    · exact h.line d hmem

theorem load (h : e.Over P) (k : Nat) : (e.load k).Over P := by
  refine ⟨?_, h.saved, h.entries⟩
  change ∀ c ∈ e.entries[k]?.getD [], P c
  cases hk : e.entries[k]? with
  | none => exact nofun
  | some text => exact h.entries text (List.mem_of_getElem? hk)

/-- **No key makes up a character.** -/
theorem edit (h : e.Over P) {key : Key}
    (hkey : ∀ c, key = .char c → c.1 ≠ NEWLINE → c.1 ≠ BACKSPACE → P c.1) :
    (key.edit e).Over P := by
  cases key with
  | char c => exact h.typed (hkey c rfl)
  | moveLeft => exact h.withLine (l := e.line.left) (fun _ hc => hc) e.view
  | moveRight => exact h.withLine (fun _ hc => Line.text_right ▸ hc) e.view
  | moveHome => exact h.withLine (l := e.line.home) (fun _ hc => hc) e.view
  | moveEnd => exact h.withLine (l := e.line.toEnd) (fun _ hc => hc) e.view
  | deleteForward => exact h.withLine (fun _ => Line.mem_deleteAt) e.view
  | historyPrev =>
    unfold Key.edit Editor.older
    have hsaved : Editor.Over P { e with saved := e.line } := ⟨h.line, h.line, h.entries⟩
    dsimp only
    split
    · split
      · exact h
      · exact hsaved.load 0
    · split
      · exact h.load _
      · exact h
  | historyNext =>
    unfold Key.edit Editor.newer
    dsimp only
    split
    · exact h
    · exact ⟨h.saved, h.saved, h.entries⟩
    · exact h.load _

/-- A row of keys does not either. -/
theorem editAll : ∀ {events : List Event} {e : Editor}, e.Over P →
    (∀ event ∈ events, ∀ c, event.key = .char c → c.1 ≠ NEWLINE → c.1 ≠ BACKSPACE → P c.1) →
      (editAll events e).Over P := by
  intro events
  induction events with
  | nil => exact fun h _ => h
  | cons event events ih =>
    intro e h hkeys
    exact ih (h.edit (hkeys event List.mem_cons_self)) fun other hother =>
      hkeys other (List.mem_cons_of_mem event hother)

end Editor.Over

/-! ## What happens on the screen -/

/-- What a key does to the screen. -/
inductive Effect where
  | quiet
  | redraw
  | erase
  | prompt
deriving DecidableEq

/-- It depends on the line, the history and what is viewed. -/
def Key.effect (key : Key) (e : Editor) : Effect :=
  match key with
  | .char c =>
    if c.1 = NEWLINE then .prompt
    else if c.1 = BACKSPACE then if e.line.cursor = 0 then .quiet else .redraw
    else if e.Full then .prompt else .redraw
  | .moveLeft => if e.line.cursor = 0 then .quiet else .redraw
  | .moveRight => if e.line.cursor < e.line.text.length then .redraw else .quiet
  | .moveHome => .redraw
  | .moveEnd => .redraw
  | .deleteForward => if e.line.cursor < e.line.text.length then .redraw else .quiet
  | .historyPrev =>
    match e.view with
    | none => if e.entries = [] then .quiet else .redraw
    | some k => if k + 1 < e.entries.length then .redraw else .quiet
  | .historyNext => if e.view = none then .quiet else .erase

end Frewozet
