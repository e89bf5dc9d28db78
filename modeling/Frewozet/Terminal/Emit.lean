import Frewozet.Terminal.Code
import Mathlib.Data.List.TakeWhile

/-!
# A text in pieces

The calls that write leave the screen as one call with all of the text would, whatever the
video controller is told in between.

* `terminalWritecharOptimized_crtc` — nothing depends on what the controller was told.
* `terminalWrite_writechar`, `terminalWrite_write` — **a text can be written in pieces.**
-/

namespace Frewozet

variable {t : Terminal} {c : U8} {s s' : List U8}

/-! ## The video controller -/

theorem terminalScroll_crtc (x : U16) (t : Terminal) :
    terminalScroll { t with crtc := x } = { terminalScroll t with crtc := x } := by
  unfold terminalScroll
  dsimp only
  rw [forRange_hom (g := fun t : Terminal => { t with crtc := x }) (fun _ _ => rfl)]
  congr 1
  exact (forRange_hom (g := fun t : Terminal => { t with crtc := x })
    (fun _ _ => forRange_hom (g := fun t : Terminal => { t with crtc := x }) (fun _ _ => rfl) _ _)
    _ t).symm

theorem terminalWritecharOptimized_crtc (x : U16) (t : Terminal) :
    terminalWritecharOptimized c { t with crtc := x } =
      { terminalWritecharOptimized c t with crtc := x } := by
  unfold terminalWritecharOptimized
  dsimp only
  split
  · split
    · rw [terminalScroll_crtc x { t with cursorRow := t.cursorRow + 1, cursorCol := 0 }]
    · rfl
  · unfold Terminal.putCell
    dsimp only
    split <;> rfl

theorem writeLoop_crtc (x : U16) (s : List U8) (t : Terminal) :
    writeLoop s { t with crtc := x } = { writeLoop s t with crtc := x } := by
  induction s generalizing t with
  | nil => rfl
  | cons c s ih => exact (congrArg (writeLoop s) (terminalWritecharOptimized_crtc x t)).trans (ih _)

/-- The position is told once, at the end. -/
theorem terminalWrite_updateCursor (s : List U8) (t : Terminal) :
    terminalWrite s (terminalUpdateCursor t) = terminalWrite s t := by
  have hloop : writeLoop (cstr s) (terminalUpdateCursor t) =
      { writeLoop (cstr s) t with crtc := (terminalUpdateCursor t).crtc } := writeLoop_crtc _ _ t
  rw [terminalWrite, hloop]
  rfl

/-! ## Pieces -/

theorem cstr_eq_self (h : 0 ∉ s) : cstr s = s :=
  List.takeWhile_eq_self_iff.2 fun c hc => by
    simpa using fun hzero : c = 0 => h (hzero ▸ hc)

/-- **A character before a text.** -/
theorem terminalWrite_writechar (hc : c ≠ 0) :
    terminalWrite s (terminalWritechar c t) = terminalWrite (c :: s) t := by
  rw [terminalWritechar, terminalWrite_updateCursor, terminalWrite, terminalWrite, cstr, cstr,
    List.takeWhile_cons, if_pos (by simpa using hc)]
  rfl

/-- **A text before a text.** -/
theorem terminalWrite_write (hs : 0 ∉ s) :
    terminalWrite s' (terminalWrite s t) = terminalWrite (s ++ s') t := by
  rw [terminalWrite, terminalWrite, cstr_eq_self hs, ← terminalWrite, terminalWrite_updateCursor,
    terminalWrite, terminalWrite, writeLoop, writeLoop, writeLoop, ← List.foldl_append, cstr, cstr,
    List.takeWhile_append]
  rw [if_pos (by simpa [cstr] using congrArg List.length (cstr_eq_self hs))]

theorem terminalWritechar_eq (hc : c ≠ 0) : terminalWritechar c t = terminalWrite [c] t := by
  rw [terminalWrite, cstr_eq_self (by simpa using hc.symm)]
  rfl

/-- A loop that writes one character after the other. -/
theorem forRange_writechar {f : Nat → U8} (hf : ∀ k, f k ≠ 0) (n : Nat) (t : Terminal) :
    forRange (n + 1) (fun k => terminalWritechar (f k)) t =
      terminalWrite ((List.range (n + 1)).map f) t := by
  induction n with
  | zero =>
    rw [forRange_succ, forRange_zero]
    exact terminalWritechar_eq (hf 0)
  | succ n ih =>
    have hplain : 0 ∉ (List.range (n + 1)).map f := by
      intro hmem
      obtain ⟨k, -, hk⟩ := List.mem_map.1 hmem
      exact hf k hk
    rw [forRange_succ, ih, terminalWritechar_eq (hf _), terminalWrite_write hplain,
      List.range_succ (n := n + 1), List.map_append]
    rfl

end Frewozet
