import GuestMemory.Decode.Cursor
import Mathlib.Tactic.ByContra
import Mathlib.Tactic.SplitIfs

/-!
Reading through a cursor. Each request needs the window up to some offset (`Request.reach`): the place that it moves
to, or the end of the bytes that it reads. Where the window is that long the request is met, and where it is not,
nothing moves (`served_perform`); so a cursor never leaves its window, whatever is asked of it and in whatever order
(`within_after`). Numbers of any widths that are read one after the other are, put back into bytes, the part of the
window that was passed over (`bytes_replies`).
-/
namespace GuestMemory.Cursor

/-! ### Requests -/

/-- What can be asked of a cursor. -/
inductive Request where
  | seek (offset : Nat)
  | skip (count : Nat)
  | rewind
  | peek
  | read (w : Width)

inductive Reply where
  | moved
  | byte (b : UInt8)
  | value (w : Width) (value : w.Value)
  | failed (e : DecodeError)

/-- One request; a cursor that cannot meet it stays as it is. -/
def perform (c : Cursor) : Request → Reply × Cursor
  | .seek offset =>
    match c.seek offset with
    | .error e => (.failed e, c)
    | .ok c => (.moved, c)
  | .skip count =>
    match c.skip count with
    | .error e => (.failed e, c)
    | .ok c => (.moved, c)
  | .rewind => (.moved, c.rewind)
  | .peek =>
    match c.peek with
    | .error e => (.failed e, c)
    | .ok b => (.byte b, c)
  | .read w =>
    match c.read w with
    | .error e => (.failed e, c)
    | .ok (value, c) => (.value w value, c)

/-- The cursor after a history of requests. -/
def after (c : Cursor) (history : List Request) : Cursor :=
  history.foldl (fun c request => (c.perform request).2) c

/-- What the cursor replies to requests one after the other. -/
def replies (c : Cursor) : List Request → List Reply
  | [] => []
  | request :: rest => (c.perform request).1 :: (c.perform request).2.replies rest

namespace Request

/-- How far the window has to go for a request from a position: to the place that it moves to, or over the bytes that
    it reads. -/
def reach (position : Nat) : Request → Nat
  | .seek offset => offset
  | .skip count => position + count
  | .rewind => 0
  | .peek => position + 1
  | .read w => position + w.size

/-- Where a request that is met leaves the cursor. -/
def destination (position : Nat) : Request → Nat
  | .peek => position
  | request => request.reach position

/-- Whether the request only goes on from where the cursor is, over bytes that it returns. -/
def isRead : Request → Bool
  | .peek | .read _ => true
  | _ => false

/-- The offset that is reported for a request that a window does not reach far enough for. Where bytes are missing, the
    first of them is the one behind the window. -/
def reported (window : Contents) (position : Nat) : Request → Nat
  | .seek offset => offset
  | .skip count => if position + count ≤ maxWord64 then position + count else position
  | _ => window.size

/-- What a request is to be answered with from the bytes at a position. -/
def Answers (window : Contents) (position : Nat) : Request → Reply → Prop
  | .peek, reply => ∃ b, window[position]? = some b ∧ reply = .byte b
  | .read w, reply => ∃ value : w.Value, reply = .value w value ∧
      value.toNat = ofLittleEndian (window.slice position w.size)
  | _, reply => reply = .moved

end Request

/-- The bytes that the cursor has passed over with its reply. -/
def Reply.bytes : Reply → List UInt8
  | .value w number => w.encode number
  | _ => []

/-! ### One request -/

/-- The request is met if the window reaches far enough, and otherwise fails and moves nothing. -/
structure Served (c : Cursor) (request : Request) (reply : Reply) (after : Cursor) : Prop where
  failed_iff : (∃ e, reply = .failed e) ↔ c.window.size < request.reach c.position
  fails : c.window.size < request.reach c.position →
    reply = .failed (.outOfBounds (request.reported c.window c.position)) ∧ after = c
  meets : request.reach c.position ≤ c.window.size →
    request.Answers c.window c.position reply ∧ after = { c with position := request.destination c.position }

/-- The cursor sees the window, and is inside it or at its end. -/
structure Within (window : Contents) (c : Cursor) : Prop where
  sees : c.window = window
  inside : c.position ≤ window.size

theorem Request.Answers.ne_failed {window : Contents} {position : Nat} {request : Request} {reply : Reply}
    (answers : request.Answers window position reply) (e : DecodeError) : reply ≠ .failed e := by
  cases request with
  | peek =>
    obtain ⟨b, -, rfl⟩ := answers
    rintro ⟨⟩
  | read w =>
    obtain ⟨value, rfl, -⟩ := answers
    rintro ⟨⟩
  | seek | skip | rewind =>
    obtain rfl : reply = .moved := answers
    rintro ⟨⟩

/-- Of the two outcomes, one rules the other out. -/
theorem Served.of_outcomes {c after : Cursor} {request : Request} {reply : Reply}
    (fails : c.window.size < request.reach c.position →
      reply = .failed (.outOfBounds (request.reported c.window c.position)) ∧ after = c)
    (meets : request.reach c.position ≤ c.window.size →
      request.Answers c.window c.position reply ∧ after = { c with position := request.destination c.position }) :
    c.Served request reply after where
  fails := fails
  meets := meets
  failed_iff := by
    constructor
    · rintro ⟨e, failed⟩
      by_contra enough
      exact (meets (Nat.le_of_not_lt enough)).1.ne_failed e failed
    · intro short
      exact ⟨_, (fails short).1⟩

theorem seek_of_le {c : Cursor} {offset : Nat} (inside : offset ≤ c.window.size) :
    c.seek offset = .ok { c with position := offset } := if_pos inside

theorem seek_of_lt {c : Cursor} {offset : Nat} (outside : c.window.size < offset) :
    c.seek offset = .error (.outOfBounds offset) := if_neg (Nat.not_le.mpr outside)

variable {window : Contents} {c : Cursor}

/-- No window is so long that a 64-bit number could not tell its end, so a skip that such a number does not hold leads
    out of the window anyway. -/
theorem served_perform (within : c.Within window) (addressable : window.size ≤ maxWord64) (request : Request) :
    c.Served request (c.perform request).1 (c.perform request).2 := by
  obtain ⟨rfl, inside⟩ := within
  cases request with
  | seek offset =>
    apply Served.of_outcomes
    · intro short
      have refused : c.seek offset = .error (.outOfBounds offset) := seek_of_lt short
      rw [perform, refused]
      exact ⟨rfl, rfl⟩
    · intro enough
      have moved : c.seek offset = .ok { c with position := offset } := seek_of_le enough
      rw [perform, moved]
      exact ⟨rfl, rfl⟩
  | skip count =>
    apply Served.of_outcomes
    · intro short
      have refused : c.seek (c.position + count) = .error (.outOfBounds (c.position + count)) := seek_of_lt short
      rw [perform, skip, Request.reported, refused]
      split_ifs
      · exact ⟨rfl, rfl⟩
      · exact ⟨rfl, rfl⟩
    · intro enough
      have held : c.position + count ≤ maxWord64 := Nat.le_trans enough addressable
      have moved : c.seek (c.position + count) = .ok { c with position := c.position + count } := seek_of_le enough
      rw [perform, skip, if_pos held, moved]
      exact ⟨rfl, rfl⟩
  | rewind => exact .of_outcomes (fun short => absurd short (Nat.not_lt_zero _)) fun _ => ⟨rfl, rfl⟩
  | peek =>
    apply Served.of_outcomes
    · intro short
      have atEnd : c.position = c.window.size := Nat.le_antisymm inside (Nat.le_of_lt_succ short)
      have nothing : c.window[c.position]? = none := Array.getElem?_eq_none (Nat.le_of_eq atEnd.symm)
      have reported : Request.peek.reported c.window c.position = c.position := atEnd.symm
      rw [perform, peek, nothing, reported]
      exact ⟨rfl, rfl⟩
    · intro enough
      have here : c.window[c.position]? = some c.window[c.position] := Array.getElem?_eq_getElem enough
      rw [perform, peek, here]
      exact ⟨⟨_, here, rfl⟩, rfl⟩
  | read w =>
    apply Served.of_outcomes
    · intro short
      have outside : ¬ c.position + w.size ≤ c.size := Nat.not_le.mpr short
      have cut : min c.size (c.position + w.size) = c.window.size := Nat.min_eq_left (Nat.le_of_lt short)
      rw [perform, read, if_neg outside, cut]
      exact ⟨rfl, rfl⟩
    · intro enough
      have fits : c.position + w.size ≤ c.size := enough
      rw [perform, read, if_pos fits]
      exact ⟨⟨_, rfl, Width.toNat_decode (Contents.length_slice enough)⟩, rfl⟩

/-! ### Histories -/

theorem Request.destination_le_reach (request : Request) (position : Nat) :
    request.destination position ≤ request.reach position := by
  cases request with
  | peek => exact Nat.le_succ position
  | _ => exact Nat.le_refl _

theorem Served.within {after : Cursor} {request : Request} {reply : Reply} (served : c.Served request reply after)
    (within : c.Within window) : after.Within window := by
  obtain ⟨rfl, inside⟩ := within
  by_cases enough : request.reach c.position ≤ c.window.size
  · rw [(served.meets enough).2]
    exact ⟨rfl, Nat.le_trans (request.destination_le_reach c.position) enough⟩
  · rw [(served.fails (Nat.lt_of_not_le enough)).2]
    exact ⟨rfl, inside⟩

/-- No history of requests leads out of the window. -/
theorem within_after (within : c.Within window) (addressable : window.size ≤ maxWord64) (history : List Request) :
    (c.after history).Within window := by
  induction history generalizing c with
  | nil => exact within
  | cons request rest ih => exact ih ((served_perform within addressable request).within within)

/-- A read passes over the bytes that it returns, and one that fails or only looks returns none. -/
theorem Served.bytes {after : Cursor} {request : Request} {reply : Reply} (served : c.Served request reply after)
    (reads : request.isRead = true) :
    c.position ≤ after.position ∧ reply.bytes = c.window.slice c.position (after.position - c.position) := by
  have nothing : c.window.slice c.position (c.position - c.position) = [] := by
    rw [Nat.sub_self]
    exact List.eq_nil_of_length_eq_zero (by simp [Contents.slice])
  by_cases enough : request.reach c.position ≤ c.window.size
  · obtain ⟨answers, rfl⟩ := served.meets enough
    cases request with
    | peek =>
      obtain ⟨b, -, rfl⟩ := answers
      exact ⟨Nat.le_refl _, nothing.symm⟩
    | read w =>
      obtain ⟨value, rfl, number⟩ := answers
      refine ⟨Nat.le_add_right _ _, ?_⟩
      have whole : (c.window.slice c.position w.size).length = w.size := Contents.length_slice enough
      have same : value = w.decode (c.window.slice c.position w.size) :=
        BitVec.eq_of_toNat_eq (number.trans (Width.toNat_decode whole).symm)
      have passed : (Request.read w).destination c.position - c.position = w.size := Nat.add_sub_cancel_left ..
      rw [Reply.bytes, same, Width.encode_decode whole, passed]
    | seek | skip | rewind => cases reads
  · obtain ⟨rfl, rfl⟩ := served.fails (Nat.lt_of_not_le enough)
    exact ⟨Nat.le_refl _, nothing.symm⟩

/-- Put back into bytes, what is read is the part of the window from where the reads begin to where they end. -/
theorem bytes_replies (within : c.Within window) (addressable : window.size ≤ maxWord64) {reads : List Request}
    (onlyReads : ∀ request ∈ reads, request.isRead = true) :
    c.position ≤ (c.after reads).position ∧
      (c.replies reads).flatMap Reply.bytes = window.slice c.position ((c.after reads).position - c.position) := by
  induction reads generalizing c with
  | nil => exact ⟨Nat.le_refl _, by simp [replies, after, Contents.slice]⟩
  | cons request rest ih =>
    have served := served_perform within addressable request
    obtain ⟨forward, first⟩ := served.bytes (onlyReads request (List.mem_cons_self ..))
    have onlyRest := fun request' member => onlyReads request' (List.mem_cons_of_mem _ member)
    obtain ⟨onward, others⟩ := ih (served.within within) onlyRest
    have ends : (c.perform request).2.after rest = c.after (request :: rest) := rfl
    rw [ends] at onward others
    refine ⟨Nat.le_trans forward onward, ?_⟩
    have between : c.position + ((c.perform request).2.position - c.position) = (c.perform request).2.position :=
      Nat.add_sub_cancel' forward
    have whole : (c.perform request).2.position - c.position +
        ((c.after (request :: rest)).position - (c.perform request).2.position) =
          (c.after (request :: rest)).position - c.position := by
      omega
    have joined := Contents.slice_append window c.position ((c.perform request).2.position - c.position)
      ((c.after (request :: rest)).position - (c.perform request).2.position)
    rw [between, whole] at joined
    rw [replies, List.flatMap_cons, first, others, within.sees, joined]

/-- Whatever was asked of a cursor, it is inside its window, meets exactly the requests that the window reaches far
    enough for, does not move for the others, and reads the bytes that it passes over, in numbers of whatever widths. -/
theorem requests_served (window : Contents) (addressable : window.size ≤ maxWord64) (history : List Request) :
    let c := (ofWindow window).after history
    c.window = window ∧ c.position ≤ window.size ∧ c.remaining = window.size - c.position ∧
      (∀ request, c.Served request (c.perform request).1 (c.perform request).2) ∧
      ∀ reads : List Request, (∀ request ∈ reads, request.isRead = true) →
        c.position ≤ (c.after reads).position ∧
          (c.replies reads).flatMap Reply.bytes = window.slice c.position ((c.after reads).position - c.position) := by
  intro c
  have start : (ofWindow window).Within window := ⟨rfl, Nat.zero_le _⟩
  have within : c.Within window := within_after start addressable history
  have left : c.remaining = window.size - c.position := by
    rw [remaining, size, within.sees]
  exact ⟨within.sees, within.inside, left, served_perform within addressable,
    fun _ onlyReads => bytes_replies within addressable onlyReads⟩

/-- Seven bytes, of which a history has passed over the first. -/
def sevenBytes : Contents := #[0x34, 0x12, 0x78, 0x56, 0x34, 0x12, 0xAA]

def wandering : List Request := [.skip 6, .read .word, .seek 8, .rewind, .read .byte]

/-- From the second byte on, a byte and a double word are read; the last byte is looked at, is too little for a word,
    and is read. A skip that no 64-bit number holds fails where it begins. -/
theorem sevenBytes_served :
    sevenBytes.size ≤ maxWord64 ∧
      ((ofWindow sevenBytes).after wandering).perform (.skip maxWord64) =
        (.failed (.outOfBounds 1), ⟨sevenBytes, 1⟩) ∧
      (((ofWindow sevenBytes).after wandering).replies
        [.read .byte, .read .doubleword, .peek, .read .word, .read .byte]).flatMap Reply.bytes =
          [0x12, 0x78, 0x56, 0x34, 0x12, 0xAA] := by
  have addressable : sevenBytes.size ≤ maxWord64 := by decide
  obtain ⟨-, -, -, served, passed⟩ := requests_served sevenBytes addressable wandering
  have here : (ofWindow sevenBytes).after wandering = ⟨sevenBytes, 1⟩ := rfl
  have short : sevenBytes.size < 1 + maxWord64 := by decide
  have overflow : (Request.skip maxWord64).reported sevenBytes 1 = 1 := by
    rw [Request.reported, if_neg (by decide)]
  rw [here] at served passed ⊢
  obtain ⟨failed, stayed⟩ := (served (.skip maxWord64)).fails short
  rw [overflow] at failed
  refine ⟨addressable, Prod.ext failed stayed, ?_⟩
  rw [(passed [.read .byte, .read .doubleword, .peek, .read .word, .read .byte] (by simp [Request.isRead])).2]
  rfl

end GuestMemory.Cursor
