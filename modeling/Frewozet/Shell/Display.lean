import Frewozet.Shell.Screen

/-!
# The screen agrees with the buffer

From a new prompt on, as long as no other prompt is printed.

* `Displayed` — the prompt, the line and the blanks behind it are in the cells, and the
  cursor is where the line has it, or in the last cell of the screen.
* `InLine` — the invariant of such a run; `InLine.step`, `InLine.run`.
* `Agrees` — what the screen shows is the buffer of the shell.
* `display_agrees_iff` — **it does, after each key, exactly if the line fits on the
  screen** behind its prompt.
-/

namespace Frewozet

/-- The cells from `start` on show the prompt and the line, and then blanks where a line
was that was up to `widest` characters long. -/
structure Displayed (t : Terminal) (start : Nat) (l : Line U8) (widest : Nat) : Prop where
  prompt : ∀ i (h : i < SHELL_PROMPT.length), shown (t.buffer (start + i)) = SHELL_PROMPT[i]
  text : ∀ i (h : i < l.text.length),
    shown (t.buffer (start + shellPromptLength + i)) = l.text[i]
  blank : ∀ j, start + shellPromptLength + l.text.length ≤ j →
    j < start + shellPromptLength + widest → Blank (t.buffer j)
  index : terminalGetCursorIndex t = min (start + shellPromptLength + l.cursor) (SCREEN_CELLS - 1)

/-- **A redrawn line is displayed**, if the cells behind the line drawn last were blank. -/
theorem displayed_renderLine {start : Nat} (hstart : start < SCREEN_CELLS) {l : Line U8}
    (hl : NEWLINE ∉ l.text) {last widest : Nat} {t : Terminal}
    (hblank : ∀ j, start + shellPromptLength + last ≤ j →
      j < start + shellPromptLength + widest → Blank (t.buffer j)) :
    Displayed (renderLine start l last t) start l (max widest l.text.length) := by
  have hrendered := rendered_renderLine hstart hl last t
  refine ⟨hrendered.prompt, hrendered.text, fun j h1 h2 => ?_, hrendered.index⟩
  by_cases hj : j < start + shellPromptLength + last
  · exact hrendered.blank j h1 hj
  · rw [hrendered.behind j h1 (Nat.not_lt.1 hj)]
    exact hblank j (Nat.not_lt.1 hj) (by omega)

/-! ## A run behind one prompt -/

/-- The invariant: the line of the editor is displayed from `start` on, and the shell knows
how long it is. -/
structure InLine (s : Shell) (e : Editor) (start widest : Nat) : Prop extends OnScreenRun s e where
  begins : s.promptStartIndex = start
  last : s.lastRenderedLength = e.line.text.length
  length_le : e.line.text.length ≤ widest
  displayed : Displayed s.terminal start e.line widest

variable {s : Shell} {e : Editor} {start widest : Nat}

/-- **The step**: a key that prints no prompt. -/
theorem InLine.step (h : InLine s e start widest) (hstart : start < SCREEN_CELLS) (event : Event)
    (hprompt : event.key.effect e ≠ .prompt) : ∃ s', event.exec s = some s' ∧
      InLine s' (event.key.edit e) start (max widest (event.key.edit e).line.text.length) := by
  obtain ⟨s', hexec, hrun, hseen⟩ := h.toOnScreenRun.step event
  have hclean := hrun.clean.line
  suffices hshown : s'.promptStartIndex = start ∧
      s'.lastRenderedLength = (event.key.edit e).line.text.length ∧
      Displayed s'.terminal start (event.key.edit e).line
        (max widest (event.key.edit e).line.text.length) from
    ⟨s', hexec, hrun, hshown.1, hshown.2.1, Nat.le_max_right _ _, hshown.2.2⟩
  cases heffect : event.key.effect e with
  | quiet =>
    rw [heffect] at hseen
    rw [edit_quiet heffect, hseen.start, hseen.last, hseen.terminal, Nat.max_eq_left h.length_le]
    exact ⟨h.begins, h.last, h.displayed⟩
  | redraw =>
    rw [heffect] at hseen
    refine ⟨hseen.start.trans h.begins, hseen.last, ?_⟩
    rw [hseen.terminal, h.begins, h.last]
    exact displayed_renderLine hstart hclean h.displayed.blank
  | erase =>
    rw [heffect] at hseen
    refine ⟨hseen.start.trans h.begins, hseen.last, ?_⟩
    rw [hseen.terminal, h.begins, h.last]
    refine displayed_renderLine hstart hclean fun j h1 h2 => ?_
    -- the cursor is in the line: what is behind it is not erased
    have hwithin := e.line.within
    have hindex := h.displayed.index
    have hplen : shellPromptLength = 13 := by decide
    rw [(erased_backspaces h.col s.bufferLength).behind j (by omega) (.inl (by omega))]
    exact h.displayed.blank j h1 h2
  | prompt => exact absurd heffect hprompt

/-- No key prints a new prompt: no command is run and no error is shown. -/
def Uninterrupted : List Event → Editor → Prop
  | [], _ => True
  | event :: events, e =>
    event.key.effect e ≠ .prompt ∧ Uninterrupted events (event.key.edit e)

theorem uninterrupted_append : ∀ {events events' : List Event} {e : Editor},
    Uninterrupted (events ++ events') e →
      Uninterrupted events e ∧ Uninterrupted events' (editAll events e) := by
  intro events
  induction events with
  | nil => exact fun h => ⟨trivial, h⟩
  | cons event events ih =>
    intro events' e h
    obtain ⟨h1, h2⟩ := ih h.2
    exact ⟨⟨h.1, h1⟩, h2⟩

/-- **The run.** -/
theorem InLine.run (hstart : start < SCREEN_CELLS) : ∀ (events : List Event) {s : Shell}
    {e : Editor} {widest : Nat}, InLine s e start widest → Uninterrupted events e →
      ∃ s' widest', pressAll events s = some s' ∧ widest ≤ widest' ∧
        InLine s' (editAll events e) start widest' := by
  intro events
  induction events with
  | nil => exact fun h _ => ⟨_, _, rfl, Nat.le_refl _, h⟩
  | cons event events ih =>
    intro s e widest h hun
    obtain ⟨s₁, hexec, h₁⟩ := h.step hstart event hun.1
    obtain ⟨s₂, widest', hpress, hle, h₂⟩ := ih h₁ hun.2
    exact ⟨s₂, widest', (pressAll_cons_of_exec hexec events).trans hpress,
      Nat.le_trans (Nat.le_max_left _ _) hle, h₂⟩

/-- **A new prompt** starts such a run. -/
theorem inLine_prompt {u : Shell} (hu : u.terminal.cursorCol < VGA_WIDTH)
    (h : OnScreenRun (shellPrintPrompt u) e) (hempty : e.line = .empty)
    (hroom : (shellPrintPrompt u).promptStartIndex + shellPromptLength < SCREEN_CELLS) :
    InLine (shellPrintPrompt u) e (shellPrintPrompt u).promptStartIndex 0 := by
  have hwrote := wrote_colorshellWrite hu prompt_text.1 prompt_text.2 "prompt"
  have hindex := hwrote.index
  rw [List.length_map, ← promptLength_eq] at hindex
  refine ⟨h, rfl, by rw [hempty]; rfl, by rw [hempty]; exact Nat.le_refl 0, ?_⟩
  rw [hempty]
  change terminalGetCursorIndex u.terminal + shellPromptLength < SCREEN_CELLS at hroom
  refine ⟨fun i hi => ?_, fun i hi => absurd hi (Nat.not_lt_zero i), fun j h1 h2 => ?_, ?_⟩
  · have hcell := hwrote.cell i (by rwa [List.length_map])
    rw [List.getElem_map] at hcell
    exact (congrArg shown hcell).trans (shown_vgaChar _ _)
  · exact absurd (Nat.lt_of_le_of_lt h1 h2) (Nat.lt_irrefl _)
  · refine hindex.trans ?_
    change _ = min (terminalGetCursorIndex u.terminal + shellPromptLength + 0) _
    omega

/-! ## The keys before -/

/-- The prompt has just been printed: by `shell_init`, or by the last key. -/
def AtPrompt (events : List Event) : Prop :=
  events = [] ∨ ∃ events' event, events = events' ++ [event] ∧
    event.key.effect (editAll events' {}) = .prompt

/-- The state then. -/
theorem inLine_atPrompt (s₀ : Shell) {events : List Event} (h : AtPrompt events) :
    ∃ u, (shellInit s₀ >>= pressAll events) = some u ∧
      (u.promptStartIndex + shellPromptLength < SCREEN_CELLS →
        InLine u (editAll events {}) u.promptStartIndex 0) := by
  obtain ⟨u₀, hinit, hrun₀, hcol⟩ := onScreenRun_init s₀
  rcases h with rfl | ⟨events', event, rfl, heffect⟩
  · exact ⟨_, run_of_init hinit [], inLine_prompt hcol hrun₀ rfl⟩
  obtain ⟨s, hpress, hrun⟩ := hrun₀.run events'
  obtain ⟨s', hexec, hrun', hseen⟩ := hrun.step event
  rw [heffect] at hseen
  obtain ⟨u, calls, hu, rfl⟩ := hseen
  have hedit : editAll (events' ++ [event]) {} = event.key.edit (editAll events' {}) :=
    List.foldl_append
  refine ⟨shellPrintPrompt u, ?_, fun hroom => ?_⟩
  · rw [run_of_init hinit, pressAll_append, hpress]
    exact pressAll_cons_of_exec hexec []
  · rw [hedit]
    refine inLine_prompt ?_ hrun' (edit_prompt heffect) hroom
    rw [hu]
    exact col_execCalls calls hrun.col

/-! ## The buffer -/

/-- The screen agrees with the buffer: its cells from the prompt on show the prompt and the
line, all of it, and the cursor is where `shell_cursor_pos` says. -/
structure Agrees (s : Shell) : Prop where
  prompt : ∀ i (h : i < SHELL_PROMPT.length), s.promptStartIndex + i < SCREEN_CELLS ∧
    shown (s.terminal.buffer (s.promptStartIndex + i)) = SHELL_PROMPT[i]
  line : ∀ i < s.bufferLength, s.promptStartIndex + shellPromptLength + i < SCREEN_CELLS ∧
    s.buffer.load i =
      some (shown (s.terminal.buffer (s.promptStartIndex + shellPromptLength + i)))
  cursor : terminalGetCursorIndex s.terminal =
    s.promptStartIndex + shellPromptLength + s.cursorPos

/-- The line fits on the screen behind a prompt at `start`, and so does the cursor. -/
def Fits (start : Nat) (l : Line U8) : Prop :=
  start + shellPromptLength + l.text.length ≤ SCREEN_CELLS ∧
    start + shellPromptLength + l.cursor < SCREEN_CELLS

theorem InLine.agrees_iff (h : InLine s e start widest)
    (hroom : start + shellPromptLength < SCREEN_CELLS) : Agrees s ↔ Fits start e.line := by
  have hline := h.represents.line
  have hindex := h.displayed.index
  have hplen := promptLength_eq
  have hbegins := h.begins
  have hlength := hline.length
  have hcursorPos := hline.cursor
  constructor
  · intro hagrees
    have hcursor := hagrees.cursor
    refine ⟨?_, by omega⟩
    by_cases hzero : s.bufferLength = 0
    · omega
    · have hlast := (hagrees.line (s.bufferLength - 1) (by omega)).1
      omega
  · rintro ⟨hfits, hcursor⟩
    refine ⟨fun i hi => ⟨by omega, ?_⟩, fun i hi => ⟨by omega, ?_⟩, by omega⟩
    · rw [hbegins]
      exact h.displayed.prompt i hi
    · have hi' : i < e.line.text.length := hlength ▸ hi
      rw [hline.text.char hi', hbegins, h.displayed.text i hi']

/-! ## A prompt on the last row -/

/-- On the last row every newline scrolls, and no character leaves it. -/
theorem lastRow_writechar (c : U8) {t : Terminal} (h : VGA_HEIGHT - 1 ≤ t.cursorRow) :
    VGA_HEIGHT - 1 ≤ (terminalWritecharOptimized c t).cursorRow := by
  unfold terminalWritecharOptimized
  split
  · dsimp only
    split
    · exact Nat.le_refl _
    · exact Nat.le_succ_of_le h
  · dsimp only
    split
    · exact Nat.le_succ_of_le h
    · exact h

theorem lastRow_writeLoop : ∀ (text : List U8) {t : Terminal}, VGA_HEIGHT - 1 ≤ t.cursorRow →
    VGA_HEIGHT - 1 ≤ (writeLoop text t).cursorRow := by
  intro text
  induction text with
  | nil => exact fun h => h
  | cons c text ih => exact fun h => ih (lastRow_writechar c h)

/-- A text that ends with a newline leaves the cursor at the start of the last row. -/
theorem lastRow_line (text : List U8) {t : Terminal} (h : VGA_HEIGHT - 1 ≤ t.cursorRow) :
    terminalGetCursorIndex (writeLoop (text ++ [NEWLINE]) t) = VGA_WIDTH * (VGA_HEIGHT - 1) := by
  have hlast := lastRow_writeLoop (text ++ [NEWLINE]) h
  have hloop : writeLoop (text ++ [NEWLINE]) t =
      terminalWritecharOptimized NEWLINE (writeLoop text t) := List.foldl_append
  obtain ⟨hcol, hrow⟩ := newline_lands (writeLoop text t)
  rw [hloop] at hlast ⊢
  rw [terminalGetCursorIndex, hcol]
  unfold VGA_WIDTH VGA_HEIGHT at *
  omega

/-- Typing a text prints no new prompt, if there is room for it. -/
theorem uninterrupted_typeText (commands : Commands) : ∀ {text before : List U8} {e : Editor},
    e.line = .ofText before → (∀ c ∈ text, c ≠ 0 ∧ c ≠ NEWLINE ∧ c ≠ BACKSPACE) →
      before.length + text.length ≤ SHELL_BUFFER_SIZE - 1 →
        Uninterrupted (typeText commands text) e := by
  intro text
  induction text with
  | nil => exact fun _ _ _ => trivial
  | cons c text ih =>
    intro before e hline hplain hroom
    obtain ⟨h0, hnewline, hback⟩ := hplain c List.mem_cons_self
    rw [List.length_cons] at hroom
    have hfull := Editor.not_full hline (by omega)
    have hone := (@editAll_typeText commands [c] before e hline
      (fun d hd => hplain d (by rw [List.mem_singleton.1 hd]; exact List.mem_cons_self)) (by
        rw [List.length_singleton]
        omega)).1
    rw [typeText_cons commands h0] at hone ⊢
    refine ⟨?_, ih hone (fun d hd => hplain d (List.mem_cons_of_mem c hd)) (by
      rw [List.length_append, List.length_singleton]
      omega)⟩
    rw [Key.effect, if_neg hnewline, if_neg hback, if_neg hfull]
    decide

/-- A shell whose terminal stands on the last row. -/
def lastRowShell : Shell :=
  { freshShell with terminal := { buffer := fun _ => 0, cursorRow := VGA_HEIGHT - 1 } }

/-- There `shell_init` prints the prompt. -/
theorem lastRow_prompt : ∃ u, shellInit lastRowShell = some u ∧
    u.promptStartIndex = VGA_WIDTH * (VGA_HEIGHT - 1) := by
  obtain ⟨u, hinit, -, hu⟩ := shellInit_represents lastRowShell
  obtain ⟨text, hwelcome⟩ : ∃ text, cstr SHELL_WELCOME = text ++ [NEWLINE] :=
    ⟨(cstr SHELL_WELCOME).dropLast, by decide⟩
  refine ⟨_, hinit, ?_⟩
  have hwrite : ∀ text t, terminalGetCursorIndex (terminalWrite text t) =
      terminalGetCursorIndex (writeLoop (cstr text) t) := fun _ _ => rfl
  change terminalGetCursorIndex u.terminal = _
  rw [hu, hwrite, hwelcome]
  exact lastRow_line text (Nat.le_refl _)

/-- A text that is too long for that row. -/
theorem lastRow_disagrees (commands : Commands) {text : List U8}
    (hplain : ∀ c ∈ text, c ≠ 0 ∧ c ≠ NEWLINE ∧ c ≠ BACKSPACE)
    (hroom : text.length ≤ SHELL_BUFFER_SIZE - 1)
    (hlong : VGA_WIDTH ≤ shellPromptLength + text.length) :
    Uninterrupted (typeText commands text) {} ∧ ∃ s,
      (shellInit lastRowShell >>= pressAll (typeText commands text)) = some s ∧ ¬ Agrees s := by
  have hun := @uninterrupted_typeText commands text [] {} rfl hplain (by
    rw [List.length_nil, Nat.zero_add]
    exact hroom)
  obtain ⟨hline, -⟩ := @editAll_typeText commands text [] {} rfl hplain (by
    rw [List.length_nil, Nat.zero_add]
    exact hroom)
  obtain ⟨u, hinit, hbegins⟩ := lastRow_prompt
  obtain ⟨u', hpress, hinLine⟩ := @inLine_atPrompt lastRowShell [] (.inl rfl)
  obtain rfl : u' = u := Option.some.inj (hpress.symm.trans (run_of_init hinit []))
  have hstart : u'.promptStartIndex + shellPromptLength < SCREEN_CELLS := by
    rw [hbegins]
    decide
  obtain ⟨s, widest, hs, -, hinLine'⟩ :=
    (hinLine hstart).run (by omega) (typeText commands text) hun
  refine ⟨hun, s, (run_of_init hinit _).trans hs, fun hagrees => ?_⟩
  obtain ⟨-, hcursor⟩ := (hinLine'.agrees_iff hstart).1 hagrees
  change _ + _ + (editAll (typeText commands text) {}).line.cursor < _ at hcursor
  rw [hline] at hcursor
  change _ + _ + text.length < _ at hcursor
  unfold SCREEN_CELLS VGA_HEIGHT at *
  omega

/-! ## The display -/

/-- **The display.**  From a prompt that `shell_init` or the last key printed, wherever on
the screen, and after each of any keys that run no command and show no error: where a line
was longer in between the cells are blank, and the screen agrees with the buffer exactly if
the line and the cursor fit on the screen. -/
theorem display_agrees_iff (s₀ : Shell) {before mid after : List Event} (h : AtPrompt before)
    (hun : Uninterrupted (mid ++ after) (editAll before {})) :
    ∃ u, (shellInit s₀ >>= pressAll before) = some u ∧
      (u.promptStartIndex + shellPromptLength < SCREEN_CELLS →
        ∃ v s, pressAll mid u = some v ∧ pressAll after v = some s ∧
          s.promptStartIndex = u.promptStartIndex ∧
          (∀ j, s.promptStartIndex + shellPromptLength + s.bufferLength ≤ j →
            j < s.promptStartIndex + shellPromptLength + v.bufferLength →
              Blank (s.terminal.buffer j)) ∧
          (Agrees s ↔
            Fits u.promptStartIndex (editAll after (editAll mid (editAll before {}))).line)) := by
  obtain ⟨u, hpress, hinLine⟩ := inLine_atPrompt s₀ h
  refine ⟨u, hpress, fun hroom => ?_⟩
  have hstart : u.promptStartIndex < SCREEN_CELLS := by omega
  obtain ⟨hmid, hafter⟩ := uninterrupted_append hun
  obtain ⟨v, widest, hv, -, hinLine'⟩ := (hinLine hroom).run hstart mid hmid
  obtain ⟨s, widest', hs, hle, hinLine₂⟩ := hinLine'.run hstart after hafter
  refine ⟨v, s, hv, hs, hinLine₂.begins, fun j h1 h2 => ?_, hinLine₂.agrees_iff hroom⟩
  have hwidest := hinLine'.length_le
  rw [← hinLine'.represents.line.length] at hwidest
  rw [hinLine₂.begins] at h1 h2
  rw [hinLine₂.represents.line.length] at h1
  exact hinLine₂.displayed.blank j h1 (by omega)

/-- Sixty-seven times the key `a`: the cursor is on the last of the characters instead of behind
it. -/
theorem display_lastRow_disagrees :
    Uninterrupted (typeText (saying [] "info") (List.replicate 67 0x61)) {} ∧
      ∃ s, (shellInit lastRowShell >>=
        pressAll (typeText (saying [] "info") (List.replicate 67 0x61))) = some s ∧ ¬ Agrees s :=
  lastRow_disagrees (saying [] "info")
    (fun _ hc => by rw [List.eq_of_mem_replicate hc]; decide) (by decide) (by decide)

/-- The first key there, and Home: the screen agrees with the buffer. -/
theorem display_agrees_lastRow : ∃ s, (shellInit lastRowShell >>= pressAll
    [⟨.char ⟨0x61, by decide⟩, saying [] "info"⟩, ⟨.moveHome, saying [] "info"⟩]) = some s ∧
      Agrees s := by
  obtain ⟨u, hpress, h⟩ := @display_agrees_iff lastRowShell []
    [⟨.char ⟨0x61, by decide⟩, saying [] "info"⟩] [⟨.moveHome, saying [] "info"⟩] (.inl rfl)
    ⟨by decide, by decide, trivial⟩
  obtain ⟨u', hinit, hbegins⟩ := lastRow_prompt
  obtain rfl : u' = u := Option.some.inj ((run_of_init hinit []).symm.trans hpress)
  obtain ⟨v, s, hmid, hafter, hstart, -, hagrees⟩ := h (by rw [hbegins]; decide)
  refine ⟨s, ?_, hagrees.2 (by rw [hbegins]; exact ⟨by decide, by decide⟩)⟩
  rw [run_of_init hinit]
  exact (pressAll_append [_] [_] u').trans ((congrArg (· >>= pressAll _) hmid).trans hafter)

end Frewozet
