import Mathlib.Data.List.TakeWhile
import Mathlib.Tactic.TypeStar

/-!
# Streams of terminated messages

A stream whose messages end with a stop symbol, every symbol tagged with where
it came from.
-/
namespace SteamworksService.Frames

section
variable {α τ : Type*} [DecidableEq α] (stop : α)

/-- A message from `t` with its terminator. -/
def frame (t : τ) (s : List α) : List (α × τ) := (s ++ [stop]).map (·, t)
/-- The stream consists of messages from `ts`, in this order, each of them in `P`. -/
def Framed (P : List α → Prop) : List (α × τ) → List τ → Prop
  | stream, [] => stream = []
  | stream, t :: ts => ∃ s rest, P s ∧ stop ∉ s ∧ stream = frame stop t s ++ rest ∧ Framed P rest ts
/-- The first message with its terminator, and what follows it. -/
def cut (stream : List (α × τ)) : Option (List (α × τ) × List (α × τ)) :=
  match stream.dropWhile (·.1 ≠ stop) with
  | [] => none
  | last :: rest => some (stream.takeWhile (·.1 ≠ stop) ++ [last], rest)

variable {stop}

omit [DecidableEq α] in
theorem tag_of_mem_frame {t : τ} {s : List α} {b : α × τ} (member : b ∈ frame stop t s) : b.2 = t := by
  obtain ⟨_, _, rfl⟩ := List.mem_map.mp member
  rfl

omit [DecidableEq α] in
theorem Framed.append {P : List α → Prop} {stream : List (α × τ)} {ts : List τ} (framed : Framed stop P stream ts)
    {t : τ} {s : List α} (holds : P s) (plain : stop ∉ s) :
    Framed stop P (stream ++ frame stop t s) (ts ++ [t]) := by
  induction ts generalizing stream with
  | nil =>
    rw [show stream = [] from framed]
    exact ⟨s, [], holds, plain, by simp, rfl⟩
  | cons u ts ih =>
    obtain ⟨first, rest, first', plain', rfl, framed'⟩ := framed
    exact ⟨first, rest ++ frame stop t s, first', plain', by simp, ih framed'⟩

omit [DecidableEq α] in
theorem Framed.none {P : List α → Prop} {stream : List (α × τ)} {ts : List τ} (framed : Framed stop P stream ts)
    (none : ts.length = 0) : stream = [] := by
  rw [List.length_eq_zero_iff] at none
  subst none
  exact framed

omit [DecidableEq α] in
theorem Framed.one {P : List α → Prop} {stream : List (α × τ)} {ts : List τ} (framed : Framed stop P stream ts)
    (one : ts.length = 1) : ∃ t s, P s ∧ stop ∉ s ∧ stream = frame stop t s := by
  obtain ⟨t, rfl⟩ := List.length_eq_one_iff.mp one
  obtain ⟨s, rest, holds, plain, rfl, nothing⟩ := framed
  rw [show rest = [] from nothing, List.append_nil]
  exact ⟨t, s, holds, plain, rfl⟩

omit [DecidableEq α] in
theorem frame_symbols (t : τ) (s : List α) : (frame stop t s).map Prod.fst = s ++ [stop] := by
  simp [frame, Function.comp_def]

theorem cut_frame {t : τ} {s : List α} (plain : stop ∉ s) (rest : List (α × τ)) :
    cut stop (frame stop t s ++ rest) = some (frame stop t s, rest) := by
  have passes : ∀ b ∈ s.map (·, t), decide (b.1 ≠ stop) = true := by
    intro b member
    obtain ⟨c, inside, rfl⟩ := List.mem_map.mp member
    have other : c ≠ stop := by
      rintro rfl
      exact plain inside
    simpa using other
  have shape : frame stop t s ++ rest = s.map (·, t) ++ (stop, t) :: rest := by simp [frame]
  rw [cut, shape, List.dropWhile_append_of_pos passes, List.takeWhile_append_of_pos passes]
  simp [frame]

end

end SteamworksService.Frames
