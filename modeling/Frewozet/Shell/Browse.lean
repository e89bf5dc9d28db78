import Frewozet.Shell.Screen
import Mathlib.Data.List.Induction

/-!
# Browsing the history

Up takes the line away and Down brings it back, whatever is done to the lines in between.

* `Key.Browses` — the keys that type nothing.
* `SameHistory`, `Event.exec_history` — they change no entry of the history.
* `Key.viewAfter`, `edit_viewIndex` — where they move `shell_history_view_index` to.
* `Editor.Away`, `Editor.Away.edit` — a line was left for the history, and a key keeps it or
  brings it back.
* `history_browsing_undone` — **coming back undoes browsing**, in every state of the shell.
-/

namespace Frewozet

/-- The key types nothing. -/
def Key.Browses : Key → Prop
  | .char _ => False
  | _ => True

/-- Where a key that types nothing moves the view, which is -1 outside of the history. -/
def Key.viewAfter (key : Key) (count view : Int) : Int :=
  match key with
  | .historyPrev => if view < count - 1 then view + 1 else view
  | .historyNext => if 0 ≤ view then view - 1 else view
  | _ => view

/-! ## The entries -/

/-- The history is the same, down to the arrays it is in. -/
structure SameHistory (s s' : Shell) : Prop where
  rows : s'.history = s.history
  count : s'.historyCount = s.historyCount
  next : s'.historyNextIndex = s.historyNextIndex

section

variable {s s' s'' : Shell}

theorem SameHistory.refl (s : Shell) : SameHistory s s := ⟨rfl, rfl, rfl⟩

theorem SameHistory.trans (h : SameHistory s s') (h' : SameHistory s' s'') : SameHistory s s'' :=
  ⟨h'.rows.trans h.rows, h'.count.trans h.count, h'.next.trans h.next⟩

/-- Redrawing the line. -/
theorem sameHistory_refresh {s₁ : Shell} (hrefresh : shellRefreshLine s₁ = some s')
    (h : SameHistory s s₁) : SameHistory s s' := by
  obtain ⟨t, -, hrefresh⟩ := Option.bind_eq_some_iff.1 hrefresh
  cases hrefresh
  exact ⟨h.rows, h.count, h.next⟩

/-- Loading an entry into it. -/
theorem sameHistory_load {s₁ : Shell} (hload : shellLoadViewed s₁ = some s')
    (h : SameHistory s s₁) : SameHistory s s' := by
  obtain ⟨row, -, hload⟩ := Option.bind_eq_some_iff.1 hload
  obtain ⟨buffer, -, hload⟩ := Option.bind_eq_some_iff.1 hload
  obtain ⟨length, -, hload⟩ := Option.bind_eq_some_iff.1 hload
  cases hload
  exact ⟨h.rows, h.count, h.next⟩

theorem shellHistoryPrev_history (h : shellHistoryPrev s = some s') : SameHistory s s' := by
  unfold shellHistoryPrev at h
  split at h
  · cases h
    exact .refl s
  · split at h
    · obtain ⟨s₁, hsave, h⟩ := Option.bind_eq_some_iff.1 h
      obtain ⟨saved, -, hsave⟩ := Option.bind_eq_some_iff.1 hsave
      cases hsave
      obtain ⟨s₂, hload, h⟩ := Option.bind_eq_some_iff.1 h
      exact sameHistory_refresh h (sameHistory_load hload ⟨rfl, rfl, rfl⟩)
    · split at h
      · obtain ⟨s₁, hload, h⟩ := Option.bind_eq_some_iff.1 h
        exact sameHistory_refresh h (sameHistory_load hload ⟨rfl, rfl, rfl⟩)
      · cases h
        exact .refl s

theorem shellHistoryNext_history (h : shellHistoryNext s = some s') : SameHistory s s' := by
  unfold shellHistoryNext at h
  split at h
  · cases h
    exact .refl s
  · obtain ⟨s₁, hclear, h⟩ := Option.bind_eq_some_iff.1 h
    unfold shellClearOnscreenCommand at hclear
    dsimp only at hclear
    obtain ⟨buffer, -, hclear⟩ := Option.bind_eq_some_iff.1 hclear
    cases hclear
    split at h
    · obtain ⟨s₂, hload, h⟩ := Option.bind_eq_some_iff.1 h
      exact sameHistory_refresh h (sameHistory_load hload ⟨rfl, rfl, rfl⟩)
    · obtain ⟨s₂, hrestore, hrefresh⟩ := Option.bind_eq_some_iff.1 h
      obtain ⟨line, -, hrestore⟩ := Option.bind_eq_some_iff.1 hrestore
      cases hrestore
      exact sameHistory_refresh hrefresh ⟨rfl, rfl, rfl⟩

/-- **A key that types nothing changes no entry.** -/
theorem Event.exec_history (event : Event) (hkey : event.key.Browses)
    (h : event.exec s = some s') : SameHistory s s' := by
  obtain ⟨key, commands⟩ := event
  cases key with
  | char c => exact hkey.elim
  | moveLeft =>
    change shellMoveLeft s = some s' at h
    unfold shellMoveLeft at h
    split at h
    · exact sameHistory_refresh h ⟨rfl, rfl, rfl⟩
    · cases h
      exact .refl s
  | moveRight =>
    change shellMoveRight s = some s' at h
    unfold shellMoveRight at h
    split at h
    · exact sameHistory_refresh h ⟨rfl, rfl, rfl⟩
    · cases h
      exact .refl s
  | moveHome => exact sameHistory_refresh (show shellRefreshLine _ = some s' from h) ⟨rfl, rfl, rfl⟩
  | moveEnd => exact sameHistory_refresh (show shellRefreshLine _ = some s' from h) ⟨rfl, rfl, rfl⟩
  | deleteForward =>
    change shellDeleteForward s = some s' at h
    unfold shellDeleteForward at h
    split at h
    · cases h
      exact .refl s
    · obtain ⟨buffer, -, h⟩ := Option.bind_eq_some_iff.1 h
      exact sameHistory_refresh h ⟨rfl, rfl, rfl⟩
  | historyPrev => exact shellHistoryPrev_history h
  | historyNext => exact shellHistoryNext_history h

end

/-! ## The line that was left -/

namespace Editor

/-- The view as the code counts it. -/
def viewIndex (e : Editor) : Int := e.view.elim (-1) fun k => (k : Int)

/-- An entry is viewed; the line `l` was left for it. -/
structure Away (l : Line U8) (e : Editor) : Prop where
  view : e.view ≠ none
  saved : e.saved = l

/-- No entry is viewed, and the line is `l`. -/
structure Back (l : Line U8) (e : Editor) : Prop where
  view : e.view = none
  line : e.line = l

variable {l : Line U8} {e : Editor}

/-- **A key keeps the line that was left or brings it back.** -/
theorem Away.edit (h : Away l e) {key : Key} (hkey : key.Browses) :
    Away l (key.edit e) ∨ Back l (key.edit e) := by
  obtain ⟨k, hview⟩ := Option.ne_none_iff_exists'.1 h.view
  cases key with
  | char c => exact hkey.elim
  | historyPrev =>
    left
    change Away l e.older
    unfold older
    rw [hview]
    dsimp only
    split
    · exact ⟨Option.some_ne_none _, h.saved⟩
    · exact h
  | historyNext =>
    change Away l e.newer ∨ Back l e.newer
    unfold newer
    rw [hview]
    cases k with
    | zero => exact .inr ⟨rfl, h.saved⟩
    | succ k => exact .inl ⟨Option.some_ne_none _, h.saved⟩
  | _ => exact .inl ⟨h.view, h.saved⟩

/-- The first key leaves the line, if there is a history to go to. -/
theorem older_away (hview : e.view = none) : Away e.line e.older ∨ Back e.line e.older := by
  unfold older
  rw [hview]
  dsimp only
  split
  · exact .inr ⟨hview, rfl⟩
  · exact .inl ⟨Option.some_ne_none _, rfl⟩

/-- The line stays left until it is back, which it is as soon as no entry is viewed. -/
theorem editAll_away (h : Away l e ∨ Back l e) : ∀ {events : List Event},
    (∀ event ∈ events, event.key.Browses) →
      (∀ before after, events = before ++ after → after ≠ [] → (editAll before e).view ≠ none) →
        Away l (editAll events e) ∨ Back l (editAll events e) := by
  intro events
  induction events using List.reverseRecOn with
  | nil => exact fun _ _ => h
  | append_singleton events event ih =>
    intro hkeys hfirst
    have hthen : editAll (events ++ [event]) e = event.key.edit (editAll events e) :=
      List.foldl_append
    have haway := ih (fun x hx => hkeys x (List.mem_append_left _ hx)) fun before after hsplit _ =>
      hfirst before (after ++ [event]) (by rw [hsplit, List.append_assoc]) (by simp)
    rw [hthen]
    rcases haway with haway | hback
    · exact haway.edit (hkeys event (by simp))
    · exact absurd hback.view (hfirst events [event] rfl (List.cons_ne_nil _ _))

/-! ## The view -/

theorem viewIndex_of_some {k : Nat} (h : e.view = some k) : e.viewIndex = k := by
  rw [viewIndex, h]
  rfl

theorem viewIndex_eq_neg_one_iff : e.viewIndex = -1 ↔ e.view = none := by
  cases h : e.view with
  | none => simp [viewIndex, h]
  | some k =>
    rw [viewIndex_of_some h]
    exact iff_of_false (by omega) (Option.some_ne_none k)

/-- **Up and Down move the view by one**, as far as there are entries. -/
theorem edit_viewIndex {key : Key} (hkey : key.Browses) :
    (key.edit e).viewIndex = key.viewAfter e.entries.length e.viewIndex := by
  cases key with
  | char c => exact hkey.elim
  | historyPrev =>
    change e.older.viewIndex = if _ then _ else _
    unfold older
    cases h : e.view with
    | none =>
      rw [viewIndex_eq_neg_one_iff.2 h]
      dsimp only
      split
      · rename_i hnil
        rw [hnil, if_neg (by simp)]
        exact viewIndex_eq_neg_one_iff.2 h
      · rename_i hne
        have hpos := List.length_pos_iff.2 hne
        rw [if_pos (by omega)]
        rfl
    | some k =>
      rw [viewIndex_of_some h]
      dsimp only
      split
      · rw [if_pos (by omega)]
        rfl
      · rw [if_neg (by omega)]
        exact viewIndex_of_some h
  | historyNext =>
    change e.newer.viewIndex = if _ then _ else _
    unfold newer
    cases h : e.view with
    | none =>
      rw [viewIndex_eq_neg_one_iff.2 h, if_neg (by decide)]
    | some k =>
      rw [viewIndex_of_some h, if_pos (Int.natCast_nonneg k)]
      cases k with
      | zero => rfl
      | succ k =>
        change (k : Int) = ((k + 1 : Nat) : Int) - 1
        omega
  | _ => rfl

end Editor

/-! ## Runs -/

section

variable {s s' : Shell} {e : Editor} {l : Line U8}

theorem Represents.viewIndex (h : Represents s e) : s.historyViewIndex = e.viewIndex := h.view

/-- An entry that is viewed is one. -/
theorem Represents.view_within (h : Represents s e) (hview : s.historyViewIndex ≠ -1) :
    0 ≤ s.historyViewIndex ∧ s.historyViewIndex ≤ s.historyCount - 1 := by
  rw [h.viewIndex] at hview ⊢
  obtain ⟨k, hk⟩ :=
    Option.ne_none_iff_exists'.1 fun hnone => hview (Editor.viewIndex_eq_neg_one_iff.2 hnone)
  have hlt := h.viewing k hk
  rw [Editor.viewIndex_of_some hk, h.history.count]
  omega

/-- A step of browsing. -/
theorem Event.exec_browse (event : Event) (hkey : event.key.Browses) (h : Represents s e) :
    ∃ s', event.exec s = some s' ∧ Represents s' (event.key.edit e) ∧ SameHistory s s' ∧
      s'.historyViewIndex = event.key.viewAfter s.historyCount s.historyViewIndex := by
  obtain ⟨s', hexec, hrep, -⟩ := event.exec_represents h
  refine ⟨s', hexec, hrep, event.exec_history hkey hexec, ?_⟩
  rw [hrep.viewIndex, Editor.edit_viewIndex hkey, h.history.count, h.viewIndex]

/-- A run of browsing. -/
theorem pressAll_browse : ∀ {events : List Event} {s : Shell} {e : Editor},
    (∀ event ∈ events, event.key.Browses) → Represents s e →
      ∃ s', pressAll events s = some s' ∧ Represents s' (editAll events e) ∧ SameHistory s s' := by
  intro events
  induction events with
  | nil => exact fun _ h => ⟨_, rfl, h, .refl _⟩
  | cons event events ih =>
    intro s e hkeys h
    obtain ⟨s₁, hexec, hrep, hsame, -⟩ := event.exec_browse (hkeys event List.mem_cons_self) h
    obtain ⟨s', hrun, hrep', hsame'⟩ :=
      ih (fun x hx => hkeys x (List.mem_cons_of_mem event hx)) hrep
    exact ⟨s', (pressAll_cons_of_exec hexec events).trans hrun, hrep', hsame.trans hsame'⟩

/-- Two arrays for one line. -/
theorem HoldsLine.same {a b : CharArray SHELL_BUFFER_SIZE} {n m c d : Nat}
    (ha : HoldsLine a n c l) (hb : HoldsLine b m d l) :
    (∀ i ≤ n, b.load i = a.load i) ∧ m = n ∧ d = c := by
  refine ⟨fun i hi => ?_, hb.length.trans ha.length.symm, hb.cursor.trans ha.cursor.symm⟩
  rw [ha.length] at hi
  rw [ha.text.load i hi, hb.text.load i hi]

theorem browses_cons {up : Event} {events : List Event} (hup : up.key = .historyPrev)
    (hkeys : ∀ event ∈ events, event.key.Browses) : ∀ event ∈ up :: events, event.key.Browses := by
  refine List.forall_mem_cons.2 ⟨?_, hkeys⟩
  rw [hup]
  trivial

/-- Until the code is back at the line, the editor is not. -/
theorem view_older_ne_none (h : Represents s e) {up : Event} {events : List Event}
    (hup : up.key = .historyPrev) (hkeys : ∀ event ∈ events, event.key.Browses)
    (hfirst : ∀ keys rest u, events = keys ++ rest → rest ≠ [] →
      pressAll (up :: keys) s = some u → u.historyViewIndex ≠ -1)
    {keys rest : List Event} (hsplit : events = keys ++ rest) (hrest : rest ≠ []) :
    (editAll keys e.older).view ≠ none := by
  have hkeys' : ∀ event ∈ keys, event.key.Browses :=
    fun event hevent => hkeys event (hsplit ▸ List.mem_append_left rest hevent)
  obtain ⟨u, hpress, hu, -⟩ := pressAll_browse (browses_cons hup hkeys') h
  have hne := hfirst keys rest u hsplit hrest hpress
  rw [hu.viewIndex, Ne, Editor.viewIndex_eq_neg_one_iff, editAll, List.foldl_cons, hup] at hne
  exact hne

/-- **The line is back** as soon as no entry is viewed. -/
theorem line_editAll_older (hview : e.view = none) {events : List Event}
    (hkeys : ∀ event ∈ events, event.key.Browses)
    (hfirst : ∀ keys rest, events = keys ++ rest → rest ≠ [] →
      (editAll keys e.older).view ≠ none)
    (hback : (editAll events e.older).view = none) : (editAll events e.older).line = e.line := by
  rcases Editor.editAll_away (Editor.older_away hview) hkeys hfirst with haway | hhome
  · exact absurd hback haway.view
  · exact hhome.line

/-- **Coming back undoes browsing.**  Up is pressed where no entry is viewed, then any keys
that type nothing, and an entry stays viewed until the last of them.  No step leaves an
array or touches the history, each of them moves the view as `viewAfter` says and inside
of the history; and if no entry is viewed at the end, the line, its length and its cursor are
what they were. -/
theorem history_browsing_undone {s₀ : Shell} {before : List Event}
    (hrun : (shellInit s₀ >>= pressAll before) = some s) (hview : s.historyViewIndex = -1)
    {up : Event} {events : List Event} (hup : up.key = .historyPrev)
    (hkeys : ∀ event ∈ events, event.key.Browses)
    (hfirst : ∀ keys rest u, events = keys ++ rest → rest ≠ [] →
      pressAll (up :: keys) s = some u → u.historyViewIndex ≠ -1) :
    ∃ s', pressAll (up :: events) s = some s' ∧ SameHistory s s' ∧
      (s'.historyViewIndex = -1 →
        (∀ i ≤ s.bufferLength, s'.buffer.load i = s.buffer.load i) ∧
          s'.bufferLength = s.bufferLength ∧ s'.cursorPos = s.cursorPos) ∧
      ∀ keys event rest, up :: events = keys ++ event :: rest → ∃ u u',
        pressAll keys s = some u ∧ event.exec u = some u' ∧
          u'.historyViewIndex = event.key.viewAfter s.historyCount u.historyViewIndex ∧
          (keys ≠ [] → 0 ≤ u.historyViewIndex ∧ u.historyViewIndex ≤ s.historyCount - 1) := by
  obtain ⟨s₁, hrun₁, hrep⟩ := shell_represents s₀ before
  obtain rfl : s₁ = s := Option.some.inj (hrun₁.symm.trans hrun)
  generalize editAll before {} = e at hrep
  have hbrowse := browses_cons hup hkeys
  obtain ⟨s', hpress, hrep', hsame⟩ := pressAll_browse hbrowse hrep
  refine ⟨s', hpress, hsame, fun hback => ?_, fun keys event rest hsplit => ?_⟩
  · have holder : editAll (up :: events) e = editAll events e.older := by
      rw [editAll, List.foldl_cons, hup]
      rfl
    rw [hrep'.viewIndex, Editor.viewIndex_eq_neg_one_iff, holder] at hback
    have hline := line_editAll_older (Editor.viewIndex_eq_neg_one_iff.1 (hrep.viewIndex ▸ hview))
      hkeys (fun _ _ => view_older_ne_none hrep hup hkeys hfirst) hback
    rw [holder] at hrep'
    exact hrep.line.same (hline ▸ hrep'.line)
  · obtain ⟨u, hpre, hu, hsame⟩ := @pressAll_browse keys _ _
      (fun x hx => hbrowse x (by rw [hsplit]; exact List.mem_append_left _ hx)) hrep
    obtain ⟨u', hexec, -, -, hafter⟩ := event.exec_browse
      (hbrowse event (by rw [hsplit]; simp)) hu
    rw [hsame.count] at hafter
    refine ⟨u, u', hpre, hexec, hafter, fun hne => ?_⟩
    obtain ⟨first, keys, rfl⟩ := List.exists_cons_of_ne_nil hne
    rw [List.cons_append] at hsplit
    obtain ⟨rfl, hrest⟩ := List.cons.inj hsplit
    have hwithin := hu.view_within (hfirst keys _ u hrest (List.cons_ne_nil _ _) hpre)
    rw [hsame.count] at hwithin
    exact hwithin

/-- `ls` has been entered and `x` typed; then Up, Left, Delete and Down. -/
theorem history_browsing_undone_deleted : ∃ s s',
    (shellInit freshShell >>= pressAll
        (enterText (saying [] "info") (chars "ls") ++
          typeText (saying [] "info") (chars "x"))) = some s ∧
      pressAll [⟨.historyPrev, saying [] "info"⟩, ⟨.moveLeft, saying [] "info"⟩,
        ⟨.deleteForward, saying [] "info"⟩, ⟨.historyNext, saying [] "info"⟩] s = some s' ∧
      s'.buffer.load 0 = s.buffer.load 0 ∧ s'.bufferLength = 1 ∧ s'.cursorPos = 1 := by
  obtain ⟨s, hrun, hrep⟩ := shell_represents freshShell
    (enterText (saying [] "info") (chars "ls") ++ typeText (saying [] "info") (chars "x"))
  have hlength : s.bufferLength = 1 := hrep.line.length
  have hcursor : s.cursorPos = 1 := hrep.line.cursor
  have hview : s.historyViewIndex = -1 := hrep.viewIndex
  obtain ⟨s', hpress, -, hback, -⟩ := @history_browsing_undone s _ _ hrun hview
    ⟨.historyPrev, saying [] "info"⟩
    [⟨.moveLeft, saying [] "info"⟩, ⟨.deleteForward, saying [] "info"⟩,
      ⟨.historyNext, saying [] "info"⟩] rfl
    (by simp [Key.Browses]) fun keys rest u hsplit hne hkeys => by
      -- the first entry is viewed before each of the three keys
      obtain ⟨u', hkeys', hrep'⟩ := pressAll_represents (⟨.historyPrev, _⟩ :: keys) hrep
      obtain rfl : u' = u := Option.some.inj (hkeys'.symm.trans hkeys)
      rw [hrep'.viewIndex]
      rcases keys with _ | ⟨k₁, _ | ⟨k₂, _ | ⟨k₃, keys⟩⟩⟩
      · decide
      · obtain ⟨rfl, -⟩ := List.cons.inj hsplit
        decide
      · simp only [List.cons_append, List.cons.injEq] at hsplit
        obtain ⟨rfl, rfl, -⟩ := hsplit
        decide
      · simp_all
  obtain ⟨s'', hpress', hrep'⟩ := pressAll_represents [⟨.historyPrev, saying [] "info"⟩,
    ⟨.moveLeft, saying [] "info"⟩, ⟨.deleteForward, saying [] "info"⟩,
    ⟨.historyNext, saying [] "info"⟩] hrep
  obtain rfl : s'' = s' := Option.some.inj (hpress'.symm.trans hpress)
  obtain ⟨hcells, hlen, hcur⟩ := hback hrep'.viewIndex
  exact ⟨s, s'', hrun, hpress, hcells 0 (Nat.zero_le _), hlen.trans hlength, hcur.trans hcursor⟩

end

end Frewozet
