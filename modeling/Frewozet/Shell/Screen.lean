import Frewozet.Shell.Refine
import Frewozet.Terminal.Cells

/-!
# The line on the screen

The line is redrawn from the cell where its prompt was printed.

* `Editor.Clean` — no text of the editor has a newline in it, so that drawing it never
  scrolls.
* `Rendered` — what redrawing leaves in the cells; `rendered_renderLine`.
* `OnScreenRun` — the invariant of a run: the shell stands for an editor without newlines,
  and the cursor is in a column.
* `Spares` — when an operation leaves what is before the prompt alone;
  `earlier_output_kept` — **it does then, in every state of every run.**
-/

namespace Frewozet

/-! ## No newline in a line -/

/-- No text of the editor has a newline in it. -/
structure Editor.Clean (e : Editor) : Prop where
  line : NEWLINE ∉ e.line.text
  saved : NEWLINE ∉ e.saved.text
  entries : ∀ text ∈ e.entries, NEWLINE ∉ text

namespace Editor.Clean

variable {e : Editor}

theorem iff_over : e.Clean ↔ e.Over (· ≠ NEWLINE) := by
  refine ⟨fun h => ⟨?_, ?_, ?_⟩, fun h => ⟨?_, ?_, ?_⟩⟩
  · exact fun c hc heq => h.line (heq ▸ hc)
  · exact fun c hc heq => h.saved (heq ▸ hc)
  · exact fun text htext c hc heq => h.entries text htext (heq ▸ hc)
  · exact fun hmem => h.line NEWLINE hmem rfl
  · exact fun hmem => h.saved NEWLINE hmem rfl
  · exact fun text htext hmem => h.entries text htext NEWLINE hmem rfl

/-- **No key puts a newline into a line.** -/
theorem edit (h : e.Clean) (key : Key) : (key.edit e).Clean :=
  iff_over.2 ((iff_over.1 h).edit fun _ _ henter _ => henter)

end Editor.Clean

/-- What a key leaves alone on the screen it leaves alone in the line. -/
theorem edit_quiet {key : Key} {e : Editor} (h : key.effect e = .quiet) :
    (key.edit e).line = e.line := by
  cases key with
  | char c =>
    unfold Key.effect at h
    dsimp only at h
    split at h
    · cases h
    rename_i henter
    split at h
    · rename_i hback
      split at h
      · rename_i hzero
        rw [Key.edit, Editor.typed, if_neg henter, if_pos hback, Line.deleteBefore_eq hzero]
      · cases h
    · split at h <;> cases h
  | moveLeft =>
    unfold Key.effect at h
    dsimp only at h
    split at h
    · rename_i hzero
      exact Line.left_eq hzero
    · cases h
  | moveRight =>
    unfold Key.effect at h
    dsimp only at h
    split at h
    · cases h
    · rename_i hlt
      exact Line.right_eq hlt
  | moveHome => cases h
  | moveEnd => cases h
  | deleteForward =>
    unfold Key.effect at h
    dsimp only at h
    split at h
    · cases h
    · rename_i hlt
      exact Line.deleteAt_eq hlt
  | historyPrev =>
    unfold Key.effect at h
    unfold Key.edit Editor.older
    dsimp only at h ⊢
    split at h
    · split at h
      · rename_i hempty
        rw [if_pos hempty]
      · cases h
    · split at h
      · cases h
      · rename_i holder
        rw [if_neg holder]
  | historyNext =>
    unfold Key.effect at h
    unfold Key.edit Editor.newer
    dsimp only at h ⊢
    split at h
    · rename_i hnone
      rw [hnone]
    · cases h

/-- A new prompt comes with an empty line. -/
theorem edit_prompt {key : Key} {e : Editor} (h : key.effect e = .prompt) :
    (key.edit e).line = .empty := by
  cases key with
  | char c =>
    unfold Key.effect at h
    unfold Key.edit Editor.typed
    dsimp only at h ⊢
    split at h
    · rename_i henter
      rw [if_pos henter]
      rfl
    · rename_i henter
      rw [if_neg henter]
      split at h
      · split at h <;> cases h
      · rename_i hback
        rw [if_neg hback]
        split at h
        · rename_i hfull
          rw [if_pos hfull]
        · cases h
  | moveHome => cases h
  | moveEnd => cases h
  | historyPrev =>
    unfold Key.effect at h
    dsimp only at h
    split at h <;> split at h <;> cases h
  | _ =>
    unfold Key.effect at h
    dsimp only at h
    split at h <;> cases h

/-! ## Redrawing -/

theorem promptLength_eq : shellPromptLength = SHELL_PROMPT.length := by decide

theorem prompt_text : NEWLINE ∉ SHELL_PROMPT ∧ 0 ∉ SHELL_PROMPT := by decide

/-- What redrawing leaves in the cells: the prompt and the line, blanks where a longer line
was, and what was there everywhere else. -/
structure Rendered (start : Nat) (l : Line U8) (last : Nat) (t t' : Terminal) : Prop where
  prompt : ∀ i (h : i < SHELL_PROMPT.length), shown (t'.buffer (start + i)) = SHELL_PROMPT[i]
  text : ∀ i (h : i < l.text.length),
    shown (t'.buffer (start + shellPromptLength + i)) = l.text[i]
  blank : ∀ j, start + shellPromptLength + l.text.length ≤ j →
    j < start + shellPromptLength + last → Blank (t'.buffer j)
  before : ∀ j, j < start → t'.buffer j = t.buffer j
  behind : ∀ j, start + shellPromptLength + l.text.length ≤ j →
    start + shellPromptLength + last ≤ j → t'.buffer j = t.buffer j
  index : terminalGetCursorIndex t' =
    min (start + shellPromptLength + l.cursor) (SCREEN_CELLS - 1)
  col : t'.cursorCol < VGA_WIDTH

/-- The blanks behind the line, whether there are any or not. -/
theorem renderLine_eq (start : Nat) (l : Line U8) (last : Nat) (t : Terminal) :
    renderLine start l last t =
      terminalSetCursorIndex (start + shellPromptLength + l.cursor)
        (forRange (last - l.text.length) (fun _ => terminalWritechar SPACE)
          (l.text.foldl (fun t c => colorshellWritechar c "default" t)
            (colorshellWrite SHELL_PROMPT "prompt" (terminalSetCursorIndex start t)))) := by
  unfold renderLine
  dsimp only
  split
  · rfl
  · rename_i hle
    rw [Nat.sub_eq_zero_of_le (Nat.not_lt.1 hle), forRange_zero]

/-- **Redrawing**, from a cell of the screen on. -/
theorem rendered_renderLine {start : Nat} (hstart : start < SCREEN_CELLS) {l : Line U8}
    (hl : NEWLINE ∉ l.text) (last : Nat) (t : Terminal) :
    Rendered start l last t (renderLine start l last t) := by
  rw [renderLine_eq]
  have hplaced := placed_setCursorIndex start t
  generalize terminalSetCursorIndex start t = t₁ at hplaced
  have hindex₁ : terminalGetCursorIndex t₁ = start := by
    rw [hplaced.index]
    omega
  have hprompt := wrote_colorshellWrite hplaced.col prompt_text.1 prompt_text.2 "prompt"
  generalize colorshellWrite SHELL_PROMPT "prompt" t₁ = t₂ at hprompt
  have hindex₂ := hprompt.index
  rw [List.length_map, ← promptLength_eq, hindex₁] at hindex₂
  have htext := wrote_chars "default" hprompt.col hl
  generalize l.text.foldl (fun t c => colorshellWritechar c "default" t) t₂ = t₃ at htext
  have hindex₃ := htext.index
  rw [List.length_map, hindex₂] at hindex₃
  have hspaces := wrote_spaces htext.col (last - l.text.length)
  generalize forRange (last - l.text.length) (fun _ => terminalWritechar SPACE) t₃ = t₄ at hspaces
  have hend := placed_setCursorIndex (start + shellPromptLength + l.cursor) t₄
  -- each part is left alone by those that come after it
  have hafter₃ : ∀ j, j < start + shellPromptLength + l.text.length → t₄.buffer j = t₃.buffer j :=
    fun j hj => hspaces.other j (.inl (by omega))
  have hafter₂ : ∀ j, j < start + shellPromptLength → t₃.buffer j = t₂.buffer j :=
    fun j hj => htext.other j (.inl (by omega))
  refine ⟨fun i hi => ?_, fun i hi => ?_, fun j h1 h2 => ?_, fun j hj => ?_, fun j h1 h2 => ?_,
    hend.index, hend.col⟩
  · have hcell := hprompt.cell i (by rwa [List.length_map])
    rw [List.getElem_map, hindex₁] at hcell
    rw [← promptLength_eq] at hi
    rw [hend.buffer, hafter₃ _ (by omega), hafter₂ _ (by omega), hcell, shown_vgaChar]
  · have hcell := htext.cell i (by rwa [List.length_map])
    rw [List.getElem_map, hindex₂] at hcell
    rw [hend.buffer, hafter₃ _ (by omega), hcell, shown_vgaChar]
  · have hcell := hspaces.cell (j - (start + shellPromptLength + l.text.length))
      (by rw [List.length_replicate]; omega)
    rw [List.getElem_replicate, hindex₃, Nat.add_sub_cancel' h1] at hcell
    rw [hend.buffer, hcell]
    exact blank_vgaChar _
  · rw [hend.buffer, hafter₃ j (by omega), hafter₂ j (by omega),
      hprompt.other j (.inl (by omega)), hplaced.buffer]
  · rw [hend.buffer, hspaces.other j (.inr (by rw [List.length_replicate]; omega)),
      htext.other j (.inr (by rw [List.length_map]; omega)),
      hprompt.other j (.inr (by rw [List.length_map, ← promptLength_eq]; omega)), hplaced.buffer]

/-! ## The states of a run -/

/-- The invariant of a run. -/
structure OnScreenRun (s : Shell) (e : Editor) : Prop where
  represents : Represents s e
  clean : e.Clean
  col : s.terminal.cursorCol < VGA_WIDTH

theorem col_renderLine (start : Nat) (l : Line U8) (last : Nat) (t : Terminal) :
    (renderLine start l last t).cursorCol < VGA_WIDTH :=
  (placed_setCursorIndex _ _).col

theorem col_printPrompt {u : Shell} (h : u.terminal.cursorCol < VGA_WIDTH) :
    (shellPrintPrompt u).terminal.cursorCol < VGA_WIDTH := col_colorshellWrite h _ _

variable {s : Shell} {e : Editor}

/-- **The step.** -/
theorem OnScreenRun.step (h : OnScreenRun s e) (event : Event) :
    ∃ s', event.exec s = some s' ∧ OnScreenRun s' (event.key.edit e) ∧
      (event.key.effect e).Seen s (event.key.edit e).line s' := by
  obtain ⟨s', hexec, hrep, hseen⟩ := event.exec_represents h.represents
  refine ⟨s', hexec, ⟨hrep, h.clean.edit event.key, ?_⟩, hseen⟩
  generalize event.key.effect e = effect at hseen
  cases effect with
  | quiet =>
    rw [hseen.terminal]
    exact h.col
  | redraw =>
    rw [hseen.terminal]
    exact col_renderLine _ _ _ _
  | erase =>
    rw [hseen.terminal]
    exact col_renderLine _ _ _ _
  | prompt =>
    obtain ⟨u, calls, hu, rfl⟩ := hseen
    refine col_printPrompt ?_
    rw [hu]
    exact col_execCalls calls h.col

theorem OnScreenRun.run : ∀ (events : List Event) {s : Shell} {e : Editor}, OnScreenRun s e →
    ∃ s', pressAll events s = some s' ∧ OnScreenRun s' (editAll events e) := by
  intro events
  induction events with
  | nil => exact fun h => ⟨_, rfl, h⟩
  | cons event events ih =>
    intro s e h
    obtain ⟨s₁, hexec, hrun, -⟩ := h.step event
    obtain ⟨s₂, hpress, hrun'⟩ := ih hrun
    exact ⟨s₂, (pressAll_cons_of_exec hexec events).trans hpress, hrun'⟩

/-- What `shell_init` writes starts with a newline. -/
theorem col_welcome (t : Terminal) : (terminalWrite SHELL_WELCOME t).cursorCol < VGA_WIDTH := by
  obtain ⟨rest, hwelcome⟩ : ∃ rest, cstr SHELL_WELCOME = NEWLINE :: rest :=
    ⟨(cstr SHELL_WELCOME).tail, by decide⟩
  have hcol : (terminalWritecharOptimized NEWLINE t).cursorCol < VGA_WIDTH := by
    rw [(newline_lands t).1]
    decide
  have hwrite : ∀ text, (terminalWrite text t).cursorCol = (writeLoop (cstr text) t).cursorCol :=
    fun _ => rfl
  rw [hwrite, hwelcome]
  exact col_writeLoop rest hcol

theorem onScreenRun_init (s : Shell) : ∃ u, shellInit s = some (shellPrintPrompt u) ∧
    OnScreenRun (shellPrintPrompt u) {} ∧ u.terminal.cursorCol < VGA_WIDTH := by
  obtain ⟨u, hinit, hrep, hu⟩ := shellInit_represents s
  have hcol : u.terminal.cursorCol < VGA_WIDTH := by
    rw [hu]
    exact col_welcome s.terminal
  exact ⟨u, hinit, ⟨hrep.printPrompt, ⟨List.not_mem_nil, List.not_mem_nil, fun _ ht => by
    cases ht⟩, col_printPrompt hcol⟩, hcol⟩

/-- Every state of a run from `shell_init`, whatever the memory and the screen held. -/
theorem onScreenRun_shellInit (s : Shell) (events : List Event) :
    ∃ s', (shellInit s >>= pressAll events) = some s' ∧ OnScreenRun s' (editAll events {}) := by
  obtain ⟨u, hinit, hrun, -⟩ := onScreenRun_init s
  obtain ⟨s', hpress, hrun'⟩ := hrun.run events
  exact ⟨s', (run_of_init hinit events).trans hpress, hrun'⟩

/-! ## What is before the prompt -/

/-- The operation leaves what is before the prompt alone: a redrawn line starts on the
screen, and an erased one ends where the cursor is or before. -/
def Spares (s : Shell) : Effect → Prop
  | .quiet => True
  | .redraw => s.promptStartIndex < SCREEN_CELLS
  | .erase => s.promptStartIndex < SCREEN_CELLS ∧
      s.promptStartIndex + s.bufferLength ≤ terminalGetCursorIndex s.terminal
  | .prompt => False

/-- **One operation.** -/
theorem OnScreenRun.before_kept (h : OnScreenRun s e) {l : Line U8} (hl : NEWLINE ∉ l.text)
    {effect : Effect} {s' : Shell} (hseen : effect.Seen s l s') (hspares : Spares s effect) :
    ∀ j, j < s.promptStartIndex → s'.terminal.buffer j = s.terminal.buffer j := by
  intro j hj
  cases effect with
  | quiet => rw [hseen.terminal]
  | redraw =>
    rw [hseen.terminal]
    exact (rendered_renderLine hspares hl _ _).before j hj
  | erase =>
    obtain ⟨hstart, hindex⟩ := hspares
    rw [hseen.terminal, (rendered_renderLine hstart hl _ _).before j hj]
    exact (erased_backspaces h.col s.bufferLength).before j (by omega)
  | prompt => exact hspares.elim

/-- **Earlier output is kept.**  In every state of every run from `shell_init`, an operation
that prints no new prompt leaves the cells before the prompt as they are, if the prompt
starts on the screen and, when the line is erased for a newer entry of the history, the
cursor stands at least as many cells behind the start as the line has characters. -/
theorem earlier_output_kept (s₀ : Shell) (events : List Event) (event : Event) :
    ∃ s s', (shellInit s₀ >>= pressAll events) = some s ∧ event.exec s = some s' ∧
      (Spares s (event.key.effect (editAll events {})) →
        ∀ j, j < s.promptStartIndex → s'.terminal.buffer j = s.terminal.buffer j) := by
  obtain ⟨s, hpress, hrun⟩ := onScreenRun_shellInit s₀ events
  obtain ⟨s', hexec, hrun', hseen⟩ := hrun.step event
  exact ⟨s, s', hpress, hexec, hrun.before_kept hrun'.clean.line hseen⟩

/-! ### An erased line that starts before its prompt -/

/-- A command that writes a text, and no newline behind it. -/
def saying (text : List U8) (type : String) : Commands where
  lookup _ := some fun _ _ => [.colorshellWrite text type]
  stray := []

/-- **After such a command** the prompt starts right behind its text, in the upper 25 rows. -/
theorem OnScreenRun.enter_saying (h : OnScreenRun s e) {text : List U8} (htext : NEWLINE ∉ text)
    (h0 : 0 ∉ text) (hpos : 0 < text.length) (type : String) :
    ∃ s', shellEnter (saying text type) s = some s' ∧ OnScreenRun s' e.enter ∧
      text.length ≤ s'.promptStartIndex ∧
      s'.promptStartIndex ≤ VGA_WIDTH * (VGA_HEIGHT - 1) + text.length ∧
      shown (s'.terminal.buffer (s'.promptStartIndex - 1)) = text[text.length - 1] := by
  obtain ⟨words, s₁, -, hnewline, henters⟩ := shellEnter_of_represents h.represents
  obtain ⟨u, henter, hrep, hu⟩ := henters (saying text type)
  have hlands : s₁.terminal.cursorCol = 0 ∧ s₁.terminal.cursorRow < VGA_HEIGHT := by
    rw [hnewline]
    exact newline_lands s.terminal
  change u.terminal = colorshellWrite text type s₁.terminal at hu
  have hwrote := wrote_colorshellWrite (t := s₁.terminal) (by rw [hlands.1]; decide) htext h0 type
  rw [← hu] at hwrote
  have hindex := hwrote.index
  rw [List.length_map] at hindex
  have hrow : terminalGetCursorIndex s₁.terminal = s₁.terminal.cursorRow * VGA_WIDTH := by
    rw [terminalGetCursorIndex, hlands.1, Nat.add_zero]
  have hprompt := wrote_colorshellWrite hwrote.col prompt_text.1 prompt_text.2 "prompt"
  have hclean : e.enter.Clean := h.clean.edit (.char ⟨NEWLINE, by decide⟩)
  refine ⟨_, henter, ⟨hrep.printPrompt, hclean, hprompt.col⟩, ?_, ?_, ?_⟩
  · change text.length ≤ terminalGetCursorIndex u.terminal
    omega
  · have hlt := hlands.2
    change terminalGetCursorIndex u.terminal ≤ _
    unfold VGA_WIDTH VGA_HEIGHT at *
    omega
  · have hcell := hwrote.cell (text.length - 1) (by rw [List.length_map]; omega)
    rw [List.getElem_map] at hcell
    change shown ((colorshellWrite SHELL_PROMPT "prompt" u.terminal).buffer
      (terminalGetCursorIndex u.terminal - 1)) = _
    rw [hprompt.other _ (.inl (by omega)), ← shown_vgaChar text[text.length - 1], ← hcell]
    congr 2
    omega

/-- A line is redrawn. -/
theorem OnScreenRun.step_redraw (h : OnScreenRun s e) (event : Event)
    (heffect : event.key.effect e = .redraw) (hstart : s.promptStartIndex < SCREEN_CELLS) :
    ∃ s', event.exec s = some s' ∧ OnScreenRun s' (event.key.edit e) ∧
      s'.promptStartIndex = s.promptStartIndex ∧
      (∀ j, j < s.promptStartIndex → s'.terminal.buffer j = s.terminal.buffer j) ∧
      terminalGetCursorIndex s'.terminal = min (s.promptStartIndex + shellPromptLength +
        (event.key.edit e).line.cursor) (SCREEN_CELLS - 1) := by
  obtain ⟨s', hexec, hrun, hseen⟩ := h.step event
  rw [heffect] at hseen
  refine ⟨s', hexec, hrun, hseen.start, h.before_kept hrun.clean.line hseen hstart, ?_⟩
  rw [hseen.terminal]
  exact (rendered_renderLine hstart hrun.clean.line _ _).index

/-- **Up, Home and Down**, where the newest entry is longer than the prompt: the character
before the prompt is erased. -/
theorem OnScreenRun.newer_erases (h : OnScreenRun s e) {text : List U8} {entries : List (List U8)}
    (hview : e.view = none) (hentries : e.entries = text :: entries)
    (hlong : shellPromptLength < text.length) (hbefore : text.length ≤ s.promptStartIndex)
    (hroom : s.promptStartIndex + shellPromptLength < SCREEN_CELLS) (commands : Commands) :
    ∃ s₁ s₂, pressAll [⟨.historyPrev, commands⟩, ⟨.moveHome, commands⟩] s = some s₁ ∧
      (⟨.historyNext, commands⟩ : Event).exec s₁ = some s₂ ∧
      s₁.promptStartIndex = s.promptStartIndex ∧
      s₁.terminal.buffer (s.promptStartIndex - 1) = s.terminal.buffer (s.promptStartIndex - 1) ∧
      shown (s₂.terminal.buffer (s.promptStartIndex - 1)) = SPACE := by
  have hstart : s.promptStartIndex < SCREEN_CELLS := by omega
  have holder : Key.historyPrev.edit e = { e with saved := e.line }.load 0 := by
    rw [Key.edit, Editor.older, hview]
    exact if_neg (by rw [hentries]; exact List.cons_ne_nil _ _)
  have heffect : Key.historyPrev.effect e = .redraw := by
    rw [Key.effect, hview]
    exact if_neg (by rw [hentries]; exact List.cons_ne_nil _ _)
  -- Up loads the entry, Home goes to its start
  obtain ⟨s₁, hup, hrun₁, hstart₁, hkept₁, -⟩ :=
    h.step_redraw ⟨.historyPrev, commands⟩ heffect hstart
  rw [← hstart₁] at hstart
  obtain ⟨s₂, hhome, hrun₂, hstart₂, hkept₂, hindex⟩ :=
    hrun₁.step_redraw ⟨.moveHome, commands⟩ rfl hstart
  have htext : (Key.moveHome.edit (Key.historyPrev.edit e)).line.text = text := by
    rw [holder]
    change e.entries[0]?.getD [] = text
    rw [hentries]
    rfl
  have hviewed : Key.historyNext.effect (Key.moveHome.edit (Key.historyPrev.edit e)) = .erase := by
    rw [holder]
    rfl
  have hindex₂ : terminalGetCursorIndex s₂.terminal = s.promptStartIndex + shellPromptLength := by
    rw [hindex, hstart₁]
    change min (s.promptStartIndex + shellPromptLength + 0) (SCREEN_CELLS - 1) = _
    omega
  -- Down goes back from there as often as the entry has characters
  obtain ⟨s₃, hdown, hrun₃, hseen⟩ := hrun₂.step ⟨.historyNext, commands⟩
  change (Key.historyNext.effect _).Seen _ _ _ at hseen
  rw [hviewed] at hseen
  have hlength := hrun₂.represents.line.length
  change s₂.bufferLength = (Key.moveHome.edit (Key.historyPrev.edit e)).line.text.length at hlength
  rw [htext] at hlength
  rw [← hstart₂] at hstart
  refine ⟨s₂, s₃, ?_, hdown, hstart₂.trans hstart₁, ?_, ?_⟩
  · rw [pressAll_cons_of_exec hup, pressAll_cons_of_exec hhome]
    rfl
  · rw [hkept₂ _ (by omega), hkept₁ _ (by omega)]
  · rw [hseen.terminal, (rendered_renderLine hstart hrun₃.clean.line _ _).before _ (by omega),
      (erased_backspaces hrun₂.col s₂.bufferLength).cell (by omega) _ (by omega) (by omega),
      shown_vgaChar]

/-- A shell before `shell_init`, on a clear screen. -/
def freshShell : Shell where
  buffer := ⟨fun _ => 0⟩
  history := fun _ => ⟨fun _ => 0⟩
  savedBuffer := ⟨fun _ => 0⟩
  terminal := terminalInit { buffer := fun _ => 0 }

/-- What `pageinfo` says when it cannot read the address. -/
def invalidAddress : List U8 := chars "FREWOZET SHELL ERROR: Invalid hex address."

/-- The keys of a line, and Enter. -/
def enterText (commands : Commands) (text : List U8) : List Event :=
  typeText commands text ++ [⟨.char ⟨NEWLINE, by decide⟩, commands⟩]

/-- The line `pageinfo zzzzz`, Up, Home, and then Down: the end of the message before the
prompt is gone. -/
theorem historyNext_erases_output :
    ∃ s s', (shellInit freshShell >>= pressAll
        (enterText (saying invalidAddress "error") (chars "pageinfo zzzzz") ++
          [⟨.historyPrev, saying invalidAddress "error"⟩,
            ⟨.moveHome, saying invalidAddress "error"⟩])) = some s ∧
      (⟨.historyNext, saying invalidAddress "error"⟩ : Event).exec s = some s' ∧
      ∃ j, j < s.promptStartIndex ∧ s'.terminal.buffer j ≠ s.terminal.buffer j := by
  obtain ⟨s₁, hpress, hrun₁⟩ := onScreenRun_shellInit freshShell
    (typeText (saying invalidAddress "error") (chars "pageinfo zzzzz"))
  obtain ⟨hline, hempty⟩ := @editAll_typeText (saying invalidAddress "error")
    (chars "pageinfo zzzzz") [] {} rfl (by decide) (by decide)
  generalize editAll (typeText (saying invalidAddress "error") (chars "pageinfo zzzzz")) {} = e
    at hrun₁ hline hempty
  have hentries : e.enter.entries = [chars "pageinfo zzzzz"] := by
    rw [Editor.enter, hline, hempty]
    decide
  obtain ⟨s₂, henter, hrun₂, hge, hle, hlast⟩ :=
    hrun₁.enter_saying (by decide : NEWLINE ∉ invalidAddress) (by decide) (by decide) "error"
  have hlength : invalidAddress.length = 42 := by decide
  have hplen : shellPromptLength = 13 := by decide
  have htext : (chars "pageinfo zzzzz").length = 14 := by decide
  have hroom : s₂.promptStartIndex + shellPromptLength < SCREEN_CELLS := by
    unfold SCREEN_CELLS VGA_WIDTH VGA_HEIGHT at *
    omega
  obtain ⟨s₃, s₄, hkeys, hdown, hstart, hsame, herased⟩ := hrun₂.newer_erases rfl hentries
    (by omega) (by omega) hroom (saying invalidAddress "error")
  refine ⟨s₃, s₄, ?_, hdown, s₂.promptStartIndex - 1, by omega, fun hkept => ?_⟩
  · have henter' : (⟨.char ⟨NEWLINE, by decide⟩, saying invalidAddress "error"⟩ : Event).exec s₁ =
        some s₂ := by
      change shellHandleChar _ NEWLINE s₁ = _
      rw [shellHandleChar, if_pos rfl]
      exact henter
    rw [enterText, List.append_assoc, run_append hpress, List.singleton_append,
      pressAll_cons_of_exec henter']
    exact hkeys
  · rw [hkept, hsame, hlast] at herased
    exact absurd herased (by decide)

end Frewozet
