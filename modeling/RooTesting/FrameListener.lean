import Mathlib.Data.List.Basic
import Mathlib.Tactic.Common

/-! # Listening for frames

A listener collects frames of one size from a stream of symbols. It answers each of them before it
listens again, and what comes during an answer is lost. -/
namespace RooTesting.FrameListeners

variable {σ α β : Type}

/-- Which symbols begin a frame, how many it has, and how it is answered and accepted. -/
structure Protocol (σ α β : Type) where
  starts : α → Bool
  size : ℕ
  size_pos : 0 < size
  filler : β
  answer : σ → List α → List β
  accept : σ → List α → σ

/-- The frame that is being collected, and what is left of an answer. -/
structure Listener (σ α β : Type) where
  state : σ
  frame : List α
  pending : List β

/-- One reply for each symbol, the frames in it, and the frame that it breaks off. -/
structure Conversation (α β : Type) where
  replies : List β
  frames : List (List α)
  unfinished : List α

def Conversation.behind (c : Conversation α β) (replies : List β) (frames : List (List α)) :
    Conversation α β :=
  ⟨replies ++ c.replies, frames ++ c.frames, c.unfinished⟩

theorem Conversation.behind_behind (c : Conversation α β) (replies replies' : List β)
    (frames frames' : List (List α)) :
    (c.behind replies frames).behind replies' frames' =
      c.behind (replies' ++ replies) (frames' ++ frames) := by
  simp [behind]

@[simp] theorem Conversation.behind_nil (c : Conversation α β) : c.behind [] [] = c := rfl

namespace Protocol

variable (P : Protocol σ α β)

/-- One symbol: its reply, the frame that it completes, and the next listener. -/
def hear (l : Listener σ α β) (a : α) : β × List (List α) × Listener σ α β :=
  match l.pending with
  | reply :: pending => (reply, [], { l with pending })
  | [] =>
    if l.frame.isEmpty && !P.starts a then (P.filler, [], l)
    else if l.frame.length + 1 = P.size then
      (P.filler, [l.frame ++ [a]],
        ⟨P.accept l.state (l.frame ++ [a]), [], P.answer l.state (l.frame ++ [a])⟩)
    else (P.filler, [], { l with frame := l.frame ++ [a] })

def listen : Listener σ α β → List α → Conversation α β
  | l, [] => ⟨[], [], l.frame⟩
  | l, a :: stream =>
    (listen (P.hear l a).2.2 stream).behind [(P.hear l a).1] (P.hear l a).2.1

def after (l : Listener σ α β) (stream : List α) : Listener σ α β :=
  stream.foldl (fun l a => (P.hear l a).2.2) l

/-- What a stream is answered by a listener at rest: symbols that begin nothing one by one, a
frame and the symbols lost behind it at once. -/
def converse (s : σ) : List α → Conversation α β
  | [] => ⟨[], [], []⟩
  | a :: stream =>
    if P.starts a = false then (converse s stream).behind [P.filler] []
    else if stream.length + 1 < P.size then
      ⟨List.replicate (stream.length + 1) P.filler, [], a :: stream⟩
    else
      let frame := (a :: stream).take P.size
      let later := (a :: stream).drop P.size
      (converse (P.accept s frame) (later.drop (P.answer s frame).length)).behind
        (List.replicate P.size P.filler ++ (P.answer s frame).take later.length) [frame]
termination_by stream => stream.length
decreasing_by
  · exact Nat.lt_succ_self _
  · have hsize := P.size_pos
    simp only [List.length_drop, List.length_cons]
    omega

/-- The same of any listener: first the rest of its answer, then as if the frame that it
collects were part of the stream. -/
def expect (l : Listener σ α β) (stream : List α) : Conversation α β :=
  let c := P.converse l.state (l.frame ++ stream.drop l.pending.length)
  ⟨l.pending.take stream.length ++ c.replies.drop l.frame.length, c.frames, c.unfinished⟩

/-- A frame is short of its size, has begun, and is only collected where nothing is answered. -/
structure Valid (l : Listener σ α β) : Prop where
  short : l.frame.length < P.size
  begun : ∀ a ∈ l.frame.head?, P.starts a = true
  alone : l.pending = [] ∨ l.frame = []

section Steps

variable {P} {l : Listener σ α β} {s : σ} {a : α} {frame stream symbols : List α}

theorem hear_pending {reply : β} {pending : List β} (h : l.pending = reply :: pending) :
    P.hear l a = (reply, [], { l with pending }) := by
  unfold hear
  rw [h]

theorem hear_idle (hpending : l.pending = []) (hframe : l.frame = []) (h : P.starts a = false) :
    P.hear l a = (P.filler, [], l) := by
  simp [hear, hpending, hframe, h]

/-- A frame goes on in any case, and begins with a symbol that begins one. -/
def Continues (P : Protocol σ α β) (frame : List α) (a : α) : Prop :=
  frame = [] → P.starts a = true

theorem Continues.heard (h : Continues P frame a) : (frame.isEmpty && !P.starts a) = false := by
  cases frame with
  | nil => simp [h rfl]
  | cons b frame => rfl

theorem hear_collects (hpending : l.pending = []) (h : Continues P l.frame a)
    (hshort : l.frame.length + 1 ≠ P.size) :
    P.hear l a = (P.filler, [], { l with frame := l.frame ++ [a] }) := by
  simp [hear, hpending, h.heard, hshort]

theorem hear_completes (hpending : l.pending = []) (h : Continues P l.frame a)
    (hfull : l.frame.length + 1 = P.size) :
    P.hear l a = (P.filler, [l.frame ++ [a]],
      ⟨P.accept l.state (l.frame ++ [a]), [], P.answer l.state (l.frame ++ [a])⟩) := by
  simp [hear, hpending, h.heard, hfull]

/-- Each symbol goes to the answer, is passed over, or is collected. -/
theorem hear_cases (l : Listener σ α β) (a : α) :
    (∃ reply pending, l.pending = reply :: pending ∧
        P.hear l a = (reply, [], { l with pending })) ∨
      (l.pending = [] ∧ l.frame = [] ∧ P.starts a = false ∧ P.hear l a = (P.filler, [], l)) ∨
      (l.pending = [] ∧ Continues P l.frame a ∧ l.frame.length + 1 ≠ P.size ∧
        P.hear l a = (P.filler, [], { l with frame := l.frame ++ [a] })) ∨
      (l.pending = [] ∧ Continues P l.frame a ∧ l.frame.length + 1 = P.size ∧
        P.hear l a = (P.filler, [l.frame ++ [a]],
          ⟨P.accept l.state (l.frame ++ [a]), [], P.answer l.state (l.frame ++ [a])⟩)) := by
  by_cases hpending : l.pending = []
  · refine Or.inr ?_
    by_cases hidle : l.frame = [] ∧ P.starts a = false
    · exact Or.inl ⟨hpending, hidle.1, hidle.2, hear_idle hpending hidle.1 hidle.2⟩
    have hgoes : Continues P l.frame a := fun hframe => by simpa [hframe] using hidle
    by_cases hfull : l.frame.length + 1 = P.size
    · exact Or.inr (Or.inr ⟨hpending, hgoes, hfull, hear_completes hpending hgoes hfull⟩)
    · exact Or.inr (Or.inl ⟨hpending, hgoes, hfull, hear_collects hpending hgoes hfull⟩)
  · obtain ⟨reply, pending, hpending⟩ := List.exists_cons_of_ne_nil hpending
    exact Or.inl ⟨reply, pending, hpending, hear_pending hpending⟩

end Steps

section Streams

variable {P} {l : Listener σ α β} {s : σ} {a : α} {frame stream symbols : List α}

theorem listen_cons : P.listen l (a :: stream) =
    (P.listen (P.hear l a).2.2 stream).behind [(P.hear l a).1] (P.hear l a).2.1 := rfl

/-- What goes on begins as before. -/
theorem Continues.begun (h : Continues P frame a) (hframe : ∀ b ∈ frame.head?, P.starts b = true) :
    ∀ b ∈ (frame ++ [a]).head?, P.starts b = true := by
  cases frame with
  | nil =>
    intro b hb
    exact Option.some.inj hb ▸ h rfl
  | cons c frame => exact hframe

/-- A place does not depend on the state. -/
theorem Valid.state (h : P.Valid l) (s : σ) : P.Valid { l with state := s } :=
  { short := h.short, begun := h.begun, alone := h.alone }

theorem Valid.hear (h : P.Valid l) (a : α) : P.Valid (P.hear l a).2.2 := by
  rcases hear_cases (P := P) l a with ⟨reply, pending, hpending, heq⟩ | ⟨-, -, -, heq⟩ |
    ⟨hpending, hgoes, hnot, heq⟩ | ⟨-, -, -, heq⟩ <;> rw [heq]
  · refine { short := h.short, begun := h.begun, alone := Or.inr ?_ }
    exact h.alone.resolve_left (hpending ▸ List.cons_ne_nil _ _)
  · exact h
  · refine { short := ?_, begun := hgoes.begun h.begun, alone := Or.inl hpending }
    have hshort := h.short
    simp only [List.length_append, List.length_singleton]
    omega
  · exact { short := P.size_pos, begun := (fun _ hb => nomatch hb), alone := Or.inr rfl }

/-- The state moves by the frames alone. -/
theorem after_state (l : Listener σ α β) (stream : List α) :
    (P.after l stream).state = (P.listen l stream).frames.foldl P.accept l.state := by
  induction stream generalizing l with
  | nil => rfl
  | cons a stream ih =>
    change (P.after (P.hear l a).2.2 stream).state =
      ((P.hear l a).2.1 ++ (P.listen (P.hear l a).2.2 stream).frames).foldl P.accept l.state
    rw [ih, List.foldl_append]
    rcases hear_cases (P := P) l a with ⟨reply, pending, -, heq⟩ | ⟨-, -, -, heq⟩ |
      ⟨-, -, -, heq⟩ | ⟨-, -, -, heq⟩ <;> rw [heq] <;> rfl

theorem after_frame (l : Listener σ α β) (stream : List α) :
    (P.after l stream).frame = (P.listen l stream).unfinished := by
  induction stream generalizing l with
  | nil => rfl
  | cons a stream ih => exact ih _

/-- A stream in two parts. -/
theorem listen_append (l : Listener σ α β) (stream later : List α) :
    P.listen l (stream ++ later) =
      (P.listen (P.after l stream) later).behind (P.listen l stream).replies
        (P.listen l stream).frames := by
  induction stream generalizing l with
  | nil => rfl
  | cons a stream ih =>
    rw [List.cons_append, listen_cons, ih, Conversation.behind_behind]
    rfl

theorem Valid.after (h : P.Valid l) (stream : List α) : P.Valid (P.after l stream) := by
  induction stream generalizing l with
  | nil => exact h
  | cons a stream ih => exact ih (h.hear a)

/-- An answer takes the place of as many symbols. -/
theorem listen_pending (pending : List β) :
    P.listen ⟨s, frame, pending⟩ stream =
      (P.listen ⟨s, frame, pending.drop stream.length⟩ (stream.drop pending.length)).behind
        (pending.take stream.length) [] := by
  induction pending generalizing stream with
  | nil => simp
  | cons reply pending ih =>
    cases stream with
    | nil => rfl
    | cons a stream =>
      rw [listen_cons, hear_pending rfl, ih, Conversation.behind_behind]
      rfl

theorem listen_collects (hgoes : ∀ a ∈ symbols.head?, Continues P frame a)
    (hshort : frame.length + symbols.length < P.size) :
    P.listen ⟨s, frame, []⟩ (symbols ++ stream) =
      (P.listen ⟨s, frame ++ symbols, []⟩ stream).behind
        (List.replicate symbols.length P.filler) [] := by
  induction symbols generalizing frame with
  | nil => simp
  | cons a symbols ih =>
    rw [List.length_cons] at hshort
    have hmore : frame.length + 1 ≠ P.size := by omega
    rw [List.cons_append, listen_cons, hear_collects rfl (hgoes a rfl) hmore]
    rw [ih (fun b _ hnil => absurd hnil (by simp)) (by simp; omega), Conversation.behind_behind]
    simp [List.replicate_succ]

theorem listen_frame (hgoes : ∀ a ∈ symbols.head?, Continues P frame a) (hsome : symbols ≠ [])
    (hfull : frame.length + symbols.length = P.size) :
    P.listen ⟨s, frame, []⟩ (symbols ++ stream) =
      (P.listen ⟨P.accept s (frame ++ symbols), [], P.answer s (frame ++ symbols)⟩ stream).behind
        (List.replicate symbols.length P.filler) [frame ++ symbols] := by
  induction symbols generalizing frame with
  | nil => exact absurd rfl hsome
  | cons a symbols ih =>
    cases symbols with
    | nil =>
      rw [List.singleton_append, listen_cons, hear_completes rfl (hgoes a rfl) hfull]
      rfl
    | cons b symbols =>
      rw [List.length_cons, List.length_cons] at hfull
      have hmore : frame.length + 1 ≠ P.size := by omega
      rw [List.cons_append, listen_cons, hear_collects rfl (hgoes a rfl) hmore]
      rw [ih (fun c _ hnil => absurd hnil (by simp)) (List.cons_ne_nil _ _) (by simp; omega),
        Conversation.behind_behind]
      simp [List.replicate_succ]

/-- The rest of an answer meets no symbol. -/
theorem listen_spent (pending : List β) :
    P.listen ⟨s, [], pending.drop stream.length⟩ (stream.drop pending.length) =
      P.listen ⟨s, [], []⟩ (stream.drop pending.length) := by
  rcases Nat.le_total pending.length stream.length with h | h
  · rw [List.drop_eq_nil_of_le h]
  · rw [List.drop_eq_nil_of_le h]
    rfl

/-- From rest a listener answers as the stream alone says. -/
theorem listen_rest (s : σ) (stream : List α) :
    P.listen ⟨s, [], []⟩ stream = P.converse s stream := by
  induction s, stream using converse.induct P with
  | case1 s => rw [converse]; rfl
  | case2 s a stream h ih => rw [converse, if_pos h, listen_cons, hear_idle rfl rfl h, ih]
  | case3 s a stream h hshort =>
    have hstart : P.starts a = true := by simpa using h
    have hcollect : P.listen ⟨s, [], []⟩ ((a :: stream) ++ []) = _ :=
      listen_collects (fun b hb _ => Option.some.inj hb ▸ hstart) (by simpa using hshort)
    rw [converse, if_neg h, if_pos hshort]
    rw [List.append_nil] at hcollect
    rw [hcollect]
    simp [listen, Conversation.behind]
  | case4 s a stream h hshort frame later ih =>
    have hstart : P.starts a = true := by simpa using h
    have hlength : frame.length = P.size := by
      simp only [frame, List.length_take, List.length_cons]
      omega
    have hhead : ∀ b ∈ frame.head?, Continues P ([] : List α) b := by
      intro b hb _
      have hcons : frame.head? = some a := by
        rw [List.head?_take, if_neg (Nat.ne_of_gt P.size_pos)]
        rfl
      obtain rfl := Option.some.inj (hcons.symm.trans hb)
      exact hstart
    have hsplit : a :: stream = frame ++ later := (List.take_append_drop _ _).symm
    have hsome : frame ≠ [] := List.ne_nil_of_length_pos (hlength ▸ P.size_pos)
    have hconverse : P.converse s (a :: stream) =
        (P.converse (P.accept s frame) (later.drop (P.answer s frame).length)).behind
          (List.replicate P.size P.filler ++ (P.answer s frame).take later.length) [frame] := by
      rw [converse, if_neg h, if_neg hshort]
    rw [hconverse, hsplit, listen_frame hhead hsome (by simpa using hlength), List.nil_append,
      listen_pending, listen_spent, ih, Conversation.behind_behind, hlength]
    rfl

/-- From any place a listener answers as `expect` says. -/
theorem Valid.listen (h : P.Valid l) (stream : List α) :
    P.listen l stream = P.expect l stream := by
  obtain ⟨s, frame, pending⟩ := l
  rcases h.alone with rfl | rfl
  · have hcollect : P.listen ⟨s, [], []⟩ (frame ++ stream) = _ :=
      listen_collects (fun a ha _ => h.begun a ha) (by simpa using h.short)
    rw [listen_rest, List.nil_append] at hcollect
    simp [expect, hcollect, Conversation.behind]
  · rw [listen_pending, listen_spent, listen_rest]
    simp [expect, Conversation.behind]

theorem expect_rest (s : σ) (stream : List α) :
    P.expect ⟨s, [], []⟩ stream = P.converse s stream := by
  simp [expect]

/-- A frame of the whole size that begins as one. -/
def Whole (P : Protocol σ α β) (frame : List α) : Prop :=
  frame.length = P.size ∧ ∀ a ∈ frame.head?, P.starts a = true

theorem Valid.frames (h : P.Valid l) (stream : List α) :
    ∀ frame ∈ (P.listen l stream).frames, P.Whole frame := by
  induction stream generalizing l with
  | nil => exact fun _ hframe => nomatch hframe
  | cons a stream ih =>
    intro frame hframe
    rw [listen_cons] at hframe
    rcases List.mem_append.mp hframe with hframe | hframe
    · rcases hear_cases (P := P) l a with ⟨reply, pending, -, heq⟩ | ⟨-, -, -, heq⟩ |
        ⟨-, -, -, heq⟩ | ⟨-, hgoes, hfull, heq⟩ <;> rw [heq] at hframe
      · exact nomatch hframe
      · exact nomatch hframe
      · exact nomatch hframe
      · obtain rfl := List.mem_singleton.mp hframe
        exact ⟨List.length_append.trans hfull, hgoes.begun h.begun⟩
    · exact ih (h.hear a) frame hframe

end Streams
end Protocol
end RooTesting.FrameListeners
