import MoonS7.Lib.Slices
import MoonS7.Transport.Tcp

/-!
# The buffered reader of a socket (`moonbitlang/async`, `io_buffer` and `io/reader.mbt`)

Bytes come in segments, a read may find that the peer has closed the stream or reset the connection,
and its timer may run out (`Input`). A reader keeps the bytes it was given and has not handed out in
a buffer: a piece of an array that is moved and made longer when there is no room.

Main results: `reader_refines` -- to any program a reader is a list of bytes, from which every
operation takes the next ones, and that interrupts it where the input does; `reader_exact` -- where
nothing interrupts it, a program that asks for exact lengths and marks gets what it gets from the
list, however the bytes were cut.
-/

namespace MoonS7

open Interaction Ranges

/-! ## 1. The buffer -/

/-- The `len` bytes of `buf` from `start` on have been received and not been read. -/
structure Buffer where
  buf : List UInt8
  start : Nat
  len : Nat
  fits : start + len ≤ buf.length

namespace Buffer

def new (size : Nat) : Buffer := ⟨List.replicate size 0, 0, 0, Nat.zero_le _⟩

/-- The bytes that wait to be read. -/
def waiting (self : Buffer) : List UInt8 := slice self.buf self.start self.len

/-- `SEGMENT_SIZE` -/
def segmentSize : Nat := 1024

def targetLen (n : Nat) : Nat :=
  let padding := n % segmentSize
  if padding = 0 then n else n - padding + segmentSize

theorem le_targetLen (n : Nat) : n ≤ targetLen n := by
  unfold targetLen segmentSize
  by_cases h : n % 1024 = 0
  · simp [h]
  · simp [h]
    omega

theorem targetLen_lt (n : Nat) : targetLen n < n + 1024 := by
  unfold targetLen segmentSize
  by_cases h : n % 1024 = 0
  · simp [h]
  · simp [h]
    omega

/-- Room for `n` bytes from `start` on: what waits is moved to the front, or to a longer array. -/
def enlargeTo (self : Buffer) (n : Nat) : Buffer :=
  if self.start + n ≤ self.buf.length then self
  else if h : n ≤ self.buf.length then
    ⟨clip self.buf 0 self.waiting, 0, self.len, by
      have := self.fits
      simp only [length_clip]
      omega⟩
  else
    ⟨clip (List.replicate (targetLen n) 48) 0 self.waiting, 0, self.len, by
      have := self.fits
      have := le_targetLen n
      simp only [length_clip, List.length_replicate]
      omega⟩

/-- A longer `drop` than what waits is aborted by the source's `guard`. -/
def drop (self : Buffer) (n : Nat) (h : n ≤ self.len) : Buffer :=
  if self.len - n = 0 then ⟨self.buf, 0, 0, Nat.zero_le _⟩
  else ⟨self.buf, self.start + n, self.len - n, by have := self.fits; omega⟩

/-- Bytes received behind those that wait. -/
def append (self : Buffer) (new : List UInt8)
    (h : self.start + self.len + new.length ≤ self.buf.length) : Buffer :=
  ⟨clip self.buf (self.start + self.len) new, self.start, self.len + new.length, by
    simp only [length_clip]
    omega⟩

/-- Bytes received at the front, of which those from `start` on wait. -/
def refill (self : Buffer) (new : List UInt8) (start len : Nat) (h : start + len ≤ new.length)
    (hn : new.length ≤ self.buf.length) : Buffer :=
  ⟨clip self.buf 0 new, start, len, by
    simp only [length_clip]
    omega⟩

@[simp] theorem length_waiting (self : Buffer) : self.waiting.length = self.len := by
  have := self.fits
  simp only [waiting, length_slice]
  omega

theorem waiting_eq_nil {self : Buffer} (h : self.len = 0) : self.waiting = [] := by
  simp [waiting, slice, h]

theorem waiting_getElem? (self : Buffer) (i : Nat) :
    self.waiting[i]? = if i < self.len then self.buf[self.start + i]? else none :=
  slice_getElem? _ _ _ _

@[simp] theorem len_enlargeTo (self : Buffer) (n : Nat) : (self.enlargeTo n).len = self.len := by
  simp only [enlargeTo]
  split
  · rfl
  · split <;> rfl

/-- What is moved is what waits. -/
@[simp] theorem waiting_enlargeTo (self : Buffer) (n : Nat) :
    (self.enlargeTo n).waiting = self.waiting := by
  -- bytes that are put to the front of an array with room for them
  have moved : ∀ l : List UInt8, self.len ≤ l.length →
      slice (clip l 0 self.waiting) 0 self.len = self.waiting := by
    intro l hl
    have hs := slice_clip l 0 self.waiting
    rw [length_waiting] at hs
    rw [hs, List.take_of_length_le]
    simp only [length_waiting]
    omega
  have := self.fits
  have := le_targetLen n
  simp only [enlargeTo]
  split
  · rfl
  · split
    · exact moved _ (by omega)
    · exact moved _ (by simp only [List.length_replicate]; omega)

theorem start_enlargeTo {self : Buffer} (h : self.start = 0) (n : Nat) :
    (self.enlargeTo n).start = 0 := by
  simp only [enlargeTo]
  split
  · exact h
  · split <;> rfl

theorem room_enlargeTo (self : Buffer) (n : Nat) :
    (self.enlargeTo n).start + n ≤ (self.enlargeTo n).buf.length := by
  have := le_targetLen n
  simp only [enlargeTo]
  split
  · assumption
  · split
    · simp only [length_clip]
      omega
    · simp only [length_clip, List.length_replicate]
      omega

theorem length_enlargeTo (self : Buffer) (n : Nat) :
    (self.enlargeTo n).buf.length ≤ max self.buf.length (n + 1023) := by
  have := targetLen_lt n
  simp only [enlargeTo]
  split
  · omega
  · split
    · simp only [length_clip]
      omega
    · simp only [length_clip, List.length_replicate]
      omega

@[simp] theorem buf_drop (self : Buffer) {n : Nat} (h : n ≤ self.len) :
    (self.drop n h).buf = self.buf := by
  simp only [drop]
  split <;> rfl

@[simp] theorem waiting_drop (self : Buffer) {n : Nat} (h : n ≤ self.len) :
    (self.drop n h).waiting = self.waiting.drop n := by
  have hlen := self.length_waiting
  simp only [drop]
  split
  · rw [List.drop_eq_nil_of_le (by omega)]
    exact waiting_eq_nil rfl
  · refine List.ext_getElem? fun i => ?_
    rw [List.getElem?_drop, waiting_getElem?, waiting_getElem?]
    simp only [Nat.add_assoc]
    congr 1
    rw [eq_iff_iff]
    omega

@[simp] theorem len_drop (self : Buffer) {n : Nat} (h : n ≤ self.len) :
    (self.drop n h).len = self.len - n := by
  simp only [drop]
  split
  · show 0 = self.len - n
    omega
  · rfl

/-- A buffer that is emptied begins again at the front. -/
theorem start_drop_len (self : Buffer) : (self.drop self.len (Nat.le_refl _)).start = 0 := by
  simp [drop]

theorem waiting_append (self : Buffer) {new : List UInt8}
    (h : self.start + self.len + new.length ≤ self.buf.length) :
    (self.append new h).waiting = self.waiting ++ new := by
  have hs := slice_clip self.buf (self.start + self.len) new
  rw [List.take_of_length_le (by omega)] at hs
  show slice (clip self.buf (self.start + self.len) new) self.start (self.len + new.length) = _
  rw [slice_add, hs]
  congr 1
  -- what waited is in front of what was received
  refine List.ext_getElem? fun i => ?_
  rw [waiting_getElem?, slice_getElem?, clip_getElem?]
  by_cases hi : i < self.len
  · rw [if_pos hi, if_pos hi]
    cases self.buf[self.start + i]? with
    | none => rfl
    | some x => simp only [Option.map_some, if_neg (show ¬ self.start + self.len ≤ self.start + i by omega)]
  · rw [if_neg hi, if_neg hi]

theorem waiting_refill (self : Buffer) {new : List UInt8} {start len : Nat}
    (h : start + len = new.length) (hn : new.length ≤ self.buf.length) :
    (self.refill new start len (Nat.le_of_eq h) hn).waiting = new.drop start := by
  refine List.ext_getElem? fun i => ?_
  rw [waiting_getElem?, List.getElem?_drop]
  show (if i < len then (clip self.buf 0 new)[start + i]? else none) = _
  by_cases hi : i < len
  · rw [if_pos hi, clip_getElem?, List.getElem?_eq_getElem (show start + i < self.buf.length by omega),
      List.getElem?_eq_getElem (show start + i < new.length by omega)]
    simp [List.getElem?_eq_getElem (show start + i < new.length by omega)]
  · rw [if_neg hi, List.getElem?_eq_none (by omega)]

end Buffer

/-! ## 2. What arrives -/

/-- What interrupts an operation, and how many bytes come behind it. -/
structure Interruption where
  how : Interrupt
  behind : Nat

/-- What the reads of a socket find, one after the other: some bytes, or that the timer runs out; at
    the end that the peer has closed the stream, or that the connection is gone. -/
inductive Input where
  | eof
  | broken (m : String)
  | segment (s : List UInt8) (rest : Input)
  | timer (rest : Input)

namespace Input

/-- The bytes that are still to come. -/
def bytes : Input → List UInt8
  | .eof => []
  | .broken _ => []
  | .segment s rest => s ++ rest.bytes
  | .timer rest => rest.bytes

/-- Nothing interrupts a read. -/
def Quiet : Input → Prop
  | .eof => True
  | .broken _ => False
  | .segment _ rest => rest.Quiet
  | .timer _ => False

/-- The interruptions that are still to come. -/
def stops : Input → List Interruption
  | .eof => []
  | .broken m => [⟨.raised m, 0⟩]
  | .segment _ rest => rest.stops
  | .timer rest => ⟨.expired, rest.bytes.length⟩ :: rest.stops

theorem quiet_iff {i : Input} : i.Quiet ↔ i.stops = [] := by
  induction i with
  | eof => simp [Quiet, stops]
  | broken m => simp [Quiet, stops]
  | segment s rest ih => exact ih
  | timer rest _ => simp [Quiet, stops]

theorem le_of_mem_stops {i : Input} {n : Interruption} (h : n ∈ i.stops) :
    n.behind ≤ i.bytes.length := by
  induction i with
  | eof => cases h
  | broken m =>
    cases List.mem_singleton.mp h
    exact Nat.zero_le _
  | segment s rest ih =>
    have := ih h
    simp only [bytes, List.length_append]
    omega
  | timer rest ih =>
    rcases List.mem_cons.mp h with rfl | h
    · exact Nat.le_refl _
    · exact ih h

/-- The call `_direct_read`: at most `maxLen` bytes of one segment, none at the end. -/
def directRead (maxLen : Nat) : Input → Await { s : List UInt8 // s.length ≤ maxLen } × Input
  | .eof => (.value ⟨[], Nat.zero_le _⟩, .eof)
  | .broken m => (.raised m, .eof)
  | .segment [] rest => directRead maxLen rest
  | .segment (a :: s) rest =>
    (.value ⟨(a :: s).take maxLen, List.length_take_le _ _⟩, .segment ((a :: s).drop maxLen) rest)
  | .timer rest => (.expired, rest)

/-- What a direct read can come to. -/
inductive Reads (maxLen : Nat) (i : Input) :
    Await { s : List UInt8 // s.length ≤ maxLen } → Input → Prop where
  | piece (s : { s : List UInt8 // s.length ≤ maxLen }) {i' : Input} (hs : s.val.length ≠ 0)
      (h : i.bytes = s.val ++ i'.bytes) (ht : i'.stops = i.stops) : Reads maxLen i (.value s) i'
  | ended (h : i.bytes = []) (ht : i.stops = []) : Reads maxLen i (.value ⟨[], Nat.zero_le _⟩) .eof
  | broken (m : String) (h : i.bytes = []) (ht : i.stops = [⟨.raised m, 0⟩]) :
      Reads maxLen i (.raised m) .eof
  | expired {i' : Input} (h : i.bytes = i'.bytes)
      (ht : i.stops = ⟨.expired, i'.bytes.length⟩ :: i'.stops) : Reads maxLen i .expired i'

theorem directRead_reads {maxLen : Nat} (hm : 0 < maxLen) (i : Input) :
    Reads maxLen i (directRead maxLen i).1 (directRead maxLen i).2 := by
  induction i with
  | eof => exact .ended rfl rfl
  | broken m => exact .broken m rfl rfl
  | timer rest _ => exact .expired rfl rfl
  | segment s rest ih =>
    cases s with
    | nil =>
      show Reads maxLen (.segment [] rest) (directRead maxLen rest).1 (directRead maxLen rest).2
      generalize directRead maxLen rest = d at ih
      obtain ⟨x, i'⟩ := d
      cases ih with
      | piece s hs hb ht => exact .piece s hs hb ht
      | ended hb ht => exact .ended hb ht
      | broken m hb ht => exact .broken m hb ht
      | expired hb ht => exact .expired hb ht
    | cons a s =>
      refine .piece _ ?_ ?_ rfl
      · simp only [List.length_take, List.length_cons]
        omega
      · show a :: s ++ rest.bytes = (a :: s).take maxLen ++ ((a :: s).drop maxLen ++ rest.bytes)
        rw [← List.append_assoc, List.take_append_drop]

theorem reads_of {maxLen : Nat} (hm : 0 < maxLen) {i i' : Input}
    {x : Await { s : List UInt8 // s.length ≤ maxLen }} (h : i.directRead maxLen = (x, i')) :
    Reads maxLen i x i' := by
  have hr := directRead_reads hm i
  rw [h] at hr
  exact hr

end Input

/-! ## 3. The reader -/

structure Reader where
  readBuf : Buffer
  input : Input

namespace Reader

/-- What is still to be read. -/
def stream (self : Reader) : List UInt8 := self.readBuf.waiting ++ self.input.bytes

theorem length_stream (self : Reader) :
    self.stream.length = self.readBuf.len + self.input.bytes.length := by
  rw [stream, List.length_append, Buffer.length_waiting]

def read (maxLen : Nat) (self : Reader) : Await (List UInt8) × Reader :=
  let buf := self.readBuf
  if buf.len > 0 then
    let n := min maxLen buf.len
    (.value (slice buf.buf buf.start n), { self with readBuf := buf.drop n (Nat.min_le_right _ _) })
  else
    match self.input.directRead maxLen with
    | (.value s, input) => (.value s.val, { self with input })
    | (.raised m, input) => (.raised m, { self with input })
    | (.expired, input) => (.expired, { self with input })

/-- The loop of `read_exactly`: `received` bytes are in `dst`. -/
def readLoop (len : Nat) (dst : List UInt8) (received : Nat) (self : Reader) :
    Await (List UInt8) × Reader :=
  if received < len then
    match self.read (len - received) with
    | (.value new, r) =>
      if new.length = 0 then (.raised "ReaderClosed", r)
      else r.readLoop len (clip dst received new) (received + new.length)
    | (.raised m, r) => (.raised m, r)
    | (.expired, r) => (.expired, r)
  else (.value dst, self)
termination_by len - received

def readExactly (len : Nat) (self : Reader) : Await (List UInt8) × Reader :=
  self.readLoop len (List.replicate len 48) 0

/-- The loop of `drop`: what waits was received last, and is all that may be too much. -/
def dropLoop (len dropped : Nat) (self : Reader) (h : dropped - len ≤ self.readBuf.len) :
    Await Nat × Reader :=
  let buf := self.readBuf
  if hlt : dropped < len then
    match self.input.directRead buf.buf.length with
    | (.value s, input) =>
      if s.val.length = 0 then (.value dropped, ⟨⟨buf.buf, 0, 0, Nat.zero_le _⟩, input⟩)
      else
        -- `buf.start` is 0: nothing waits when the loop begins
        dropLoop len (dropped + s.val.length)
          ⟨buf.refill s.val 0 s.val.length (by omega) s.property, input⟩
          (by show _ ≤ s.val.length; omega)
    | (.raised m, input) => (.raised m, { self with input })
    | (.expired, input) => (.expired, { self with input })
  else
    (.value len, { self with readBuf :=
      ⟨buf.buf, buf.len - (dropped - len), dropped - len, by
        have := self.readBuf.fits
        show self.readBuf.len - (dropped - len) + (dropped - len) ≤ self.readBuf.buf.length
        omega⟩ })
termination_by len - dropped

def drop (len : Nat) (self : Reader) : Await Nat × Reader :=
  let buf := self.readBuf
  if h : buf.len ≥ len then (.value len, { self with readBuf := buf.drop len h })
  else
    let buffered := buf.len
    dropLoop len buffered
      { self with readBuf := (buf.drop buffered (Nat.le_refl _)).enlargeTo 1 } (by omega)

def readSome (maxLen : Option Nat) (self : Reader) : Await (Option (List UInt8)) × Reader :=
  let buf := self.readBuf
  if buf.len > 0 then
    let m := maxLen.getD buf.len
    if h : m < buf.len then
      (.value (some (slice buf.buf buf.start m)), { self with readBuf :=
        ⟨buf.buf, buf.start + m, buf.len - m, by have := buf.fits; omega⟩ })
    else
      (.value (some (slice buf.buf buf.start buf.len)), { self with readBuf :=
        ⟨buf.buf, 0, 0, Nat.zero_le _⟩ })
  else
    let buf := buf.enlargeTo (maxLen.getD 1)
    match self.input.directRead buf.buf.length with
    | (.value n, input) =>
      if n.val.length = 0 then (.value none, ⟨buf, input⟩)
      else
        let m := maxLen.getD n.val.length
        if h : m < n.val.length then
          (.value (some (n.val.take m)), ⟨buf.refill n.val m (n.val.length - m) (by omega) n.property, input⟩)
        else (.value (some n.val), ⟨buf.refill n.val 0 0 (Nat.zero_le _) n.property, input⟩)
    | (.raised m, input) => (.raised m, ⟨buf, input⟩)
    | (.expired, input) => (.expired, ⟨buf, input⟩)

/-- The loop of `try_ensure`, with room for `len` bytes. -/
def ensureLoop (len : Nat) (self : Reader)
    (h : self.readBuf.start + len ≤ self.readBuf.buf.length) : Await Bool × Reader :=
  if hlt : self.readBuf.len < len then
    match self.input.directRead (self.readBuf.buf.length - (self.readBuf.start + self.readBuf.len)) with
    | (.value n, input) =>
      if n.val.length = 0 then (.value false, { self with input })
      else
        ensureLoop len ⟨self.readBuf.append n.val (by have := n.property; omega), input⟩ (by
          show self.readBuf.start + len ≤ (clip _ _ _).length
          rw [length_clip]
          exact h)
    | (.raised m, input) => (.raised m, { self with input })
    | (.expired, input) => (.expired, { self with input })
  else (.value true, self)
termination_by len - self.readBuf.len
decreasing_by
  show len - (self.readBuf.len + n.val.length) < len - self.readBuf.len
  omega

def tryEnsure (len : Nat) (self : Reader) : Await Bool × Reader :=
  if self.readBuf.len ≥ len then (.value true, self)
  else
    ensureLoop len { self with readBuf := self.readBuf.enlargeTo len } (self.readBuf.room_enlargeTo len)

/-! ## 4. Marks -/

/-- What `try_ensure` can come to. -/
inductive Ensures (len : Nat) (r : Reader) : Await Bool → Reader → Prop where
  | enough {r' : Reader} (hs : r'.stream = r.stream) (ht : r'.input.stops = r.input.stops)
      (h : len ≤ r'.readBuf.len) : Ensures len r (.value true) r'
  | ended {r' : Reader} (hs : r'.stream = r.stream) (ht : r'.input.stops = r.input.stops)
      (he : r.input.stops = []) (hw : r'.readBuf.waiting = r.stream) (h : r'.readBuf.len < len) :
      Ensures len r (.value false) r'
  | raised (m : String) {r' : Reader} (hs : r'.stream = r.stream)
      (ht : r.input.stops = ⟨.raised m, r'.input.bytes.length⟩ :: r'.input.stops) (h : r'.readBuf.len < len) :
      Ensures len r (.raised m) r'
  | expired {r' : Reader} (hs : r'.stream = r.stream)
      (ht : r.input.stops = ⟨.expired, r'.input.bytes.length⟩ :: r'.input.stops) (h : r'.readBuf.len < len) :
      Ensures len r .expired r'

/-- It only depends on what is still to be read. -/
theorem Ensures.of_stream {len : Nat} {r r₁ r' : Reader} {x : Await Bool} (h : Ensures len r₁ x r')
    (hs : r₁.stream = r.stream) (ht : r₁.input.stops = r.input.stops) : Ensures len r x r' := by
  cases h with
  | enough hs' ht' hl => exact .enough (hs'.trans hs) (ht'.trans ht) hl
  | ended hs' ht' he hw hl => exact .ended (hs'.trans hs) (ht'.trans ht) (ht ▸ he) (hw.trans hs) hl
  | raised m hs' ht' hl => exact .raised m (hs'.trans hs) (ht ▸ ht') hl
  | expired hs' ht' hl => exact .expired (hs'.trans hs) (ht ▸ ht') hl

theorem ensureLoop_ensures {len : Nat} (r : Reader)
    (h : r.readBuf.start + len ≤ r.readBuf.buf.length) :
    Ensures len r (r.ensureLoop len h).1 (r.ensureLoop len h).2 := by
  fun_induction ensureLoop len r h with
  | case1 r h hlt n input hd hn =>
    cases Input.reads_of (by omega) hd with
    | piece _ hs => exact absurd hn hs
    | ended hb ht =>
      have hs : r.stream = r.readBuf.waiting := by rw [stream, hb, List.append_nil]
      exact .ended (hs ▸ List.append_nil _) ht.symm ht hs.symm hlt
  | case2 r h hlt n input hd hn ih =>
    cases Input.reads_of (by omega) hd with
    | piece _ hs hb ht =>
      refine ih.of_stream ?_ ht
      rw [stream, Buffer.waiting_append, stream, hb, List.append_assoc]
    | ended => exact absurd rfl hn
  | case3 r h hlt m input hd =>
    cases Input.reads_of (by omega) hd with
    | broken _ hb ht => exact .raised m (by simp only [stream, hb]; rfl) ht hlt
  | case4 r h hlt input hd =>
    cases Input.reads_of (by omega) hd with
    | expired hb ht => exact .expired (by simp only [stream, hb]) ht hlt
  | case5 r h hge => exact .enough rfl rfl (Nat.le_of_not_lt hge)

theorem tryEnsure_ensures (len : Nat) (r : Reader) :
    Ensures len r (r.tryEnsure len).1 (r.tryEnsure len).2 := by
  unfold tryEnsure
  split
  · exact .enough rfl rfl ‹_›
  · refine (ensureLoop_ensures _ _).of_stream ?_ rfl
    simp only [stream, Buffer.waiting_enlargeTo]

theorem ensures_of {len : Nat} {r r' : Reader} {x : Await Bool} (h : r.tryEnsure len = (x, r')) :
    Ensures len r x r' := by
  have hen := tryEnsure_ensures len r
  rw [h] at hen
  exact hen

end Reader

/-- `BytesView::find`: where `target` first begins. -/
def find (target : List UInt8) : List UInt8 → Option Nat
  | [] => if target = [] then some 0 else none
  | a :: l => if target.isPrefixOf (a :: l) then some 0 else (find target l).map (· + 1)

/-- The mark `t` is at `i`, and not before. -/
structure FirstAt (t l : List UInt8) (i : Nat) : Prop where
  here : t <+: l.drop i
  first : ∀ j < i, ¬ t <+: l.drop j

theorem find_firstAt {t l : List UInt8} {i : Nat} (h : find t l = some i) : FirstAt t l i := by
  induction l generalizing i with
  | nil =>
    unfold find at h
    split at h
    · cases h
      subst t
      exact ⟨List.nil_prefix, nofun⟩
    · cases h
  | cons a l ih =>
    unfold find at h
    split at h
    · cases h
      exact ⟨List.isPrefixOf_iff_prefix.mp ‹_›, nofun⟩
    · rename_i hno
      obtain ⟨k, hk, rfl⟩ := Option.map_eq_some_iff.mp h
      refine ⟨(ih hk).here, fun j hj hp => ?_⟩
      cases j with
      | zero => exact hno (List.isPrefixOf_iff_prefix.mpr hp)
      | succ j => exact (ih hk).first j (by omega) hp

theorem find_none {t l : List UInt8} (h : find t l = none) (i : Nat) : ¬ t <+: l.drop i := by
  induction l generalizing i with
  | nil =>
    unfold find at h
    split at h
    · cases h
    · rw [List.drop_nil, List.prefix_nil]
      assumption
  | cons a l ih =>
    unfold find at h
    split at h
    · cases h
    · rename_i hno
      cases i with
      | zero => exact fun hp => hno (List.isPrefixOf_iff_prefix.mpr hp)
      | succ i => exact ih (Option.map_eq_none_iff.mp h) i

/-- A mark has one first place. -/
theorem FirstAt.unique {t l : List UInt8} {i j : Nat} (hi : FirstAt t l i) (hj : FirstAt t l j) :
    i = j := by
  rcases Nat.lt_trichotomy i j with h | h | h
  · exact absurd hi.here (hj.first i h)
  · exact h
  · exact absurd hj.here (hi.first j h)

theorem FirstAt.le {t l : List UInt8} {i : Nat} (h : FirstAt t l i) : i + t.length ≤ l.length := by
  have hlen := h.here.length_le
  rw [List.length_drop] at hlen
  cases t with
  | nil =>
    -- an empty mark is at the front
    have hi : i = 0 := by
      by_contra h0
      exact h.first 0 (Nat.pos_of_ne_zero h0) List.nil_prefix
    subst hi
    exact Nat.zero_le _
  | cons a t =>
    simp only [List.length_cons] at hlen ⊢
    omega

/-- A mark that ends inside of the beginning `w` is a mark of `w`. -/
theorem prefix_drop_append {t w : List UInt8} {j : Nat} (b : List UInt8) (h : j + t.length ≤ w.length) :
    t <+: (w ++ b).drop j ↔ t <+: w.drop j := by
  rw [List.drop_append_of_le_length (by omega)]
  refine ⟨fun hp => List.prefix_of_prefix_length_le hp (List.prefix_append _ _) ?_,
    fun hp => hp.trans (List.prefix_append _ _)⟩
  rw [List.length_drop]
  omega

namespace Reader

/-- The loop of `find_opt`: the mark does not begin in the `searched` bytes. -/
def findOpt (target : List UInt8) (searched : Nat) (self : Reader) : Await (Option Nat) × Reader :=
  match _he : self.tryEnsure (searched + target.length) with
  | (.value false, r) => (.value none, r)
  | (.value true, r) =>
    match find target (slice r.readBuf.buf (r.readBuf.start + searched) (r.readBuf.len - searched)) with
    | some i => (.value (some (searched + i)), r)
    | none => findOpt target (r.readBuf.len - target.length + 1) r
  | (.raised m, r) => (.raised m, r)
  | (.expired, r) => (.expired, r)
termination_by self.stream.length + 1 - searched
decreasing_by
  have hen := tryEnsure_ensures (searched + target.length) self
  rw [_he] at hen
  cases hen with
  | enough hs _ hl =>
    have hl : searched + target.length ≤ r.readBuf.len := hl
    have hlen := congrArg List.length hs
    simp only [stream, List.length_append, Buffer.length_waiting] at hlen ⊢
    omega

/-- What `find_opt` can come to; it reads, but takes nothing. It is interrupted where the mark is not
    in what waits in front of the interruption. -/
inductive Finds (target : List UInt8) (r : Reader) : Await (Option Nat) → Reader → Prop where
  | found {i : Nat} {r' : Reader} (hs : r'.stream = r.stream) (ht : r'.input.stops = r.input.stops)
      (h : FirstAt target r.stream i) (hl : i + target.length ≤ r'.readBuf.len) :
      Finds target r (.value (some i)) r'
  | absent {r' : Reader} (hs : r'.stream = r.stream) (ht : r'.input.stops = r.input.stops)
      (he : r.input.stops = []) (hw : r'.readBuf.waiting = r.stream)
      (h : ∀ i, ¬ target <+: r.stream.drop i) : Finds target r (.value none) r'
  | raised (m : String) {r' : Reader} (hs : r'.stream = r.stream)
      (ht : r.input.stops = ⟨.raised m, r'.input.bytes.length⟩ :: r'.input.stops)
      (h : ∀ i, ¬ target <+: r'.readBuf.waiting.drop i) : Finds target r (.raised m) r'
  | expired {r' : Reader} (hs : r'.stream = r.stream)
      (ht : r.input.stops = ⟨.expired, r'.input.bytes.length⟩ :: r'.input.stops)
      (h : ∀ i, ¬ target <+: r'.readBuf.waiting.drop i) : Finds target r .expired r'

theorem Finds.of_stream {target : List UInt8} {r r₁ r' : Reader} {x : Await (Option Nat)}
    (h : Finds target r₁ x r') (hs : r₁.stream = r.stream) (ht : r₁.input.stops = r.input.stops) :
    Finds target r x r' := by
  cases h with
  | found hs' ht' hf hl => exact .found (hs'.trans hs) (ht'.trans ht) (hs ▸ hf) hl
  | absent hs' ht' he hw hf =>
    exact .absent (hs'.trans hs) (ht'.trans ht) (ht ▸ he) (hw.trans hs) (hs ▸ hf)
  | raised m hs' ht' hf => exact .raised m (hs'.trans hs) (ht ▸ ht') hf
  | expired hs' ht' hf => exact .expired (hs'.trans hs) (ht ▸ ht') hf

/-- A mark that does not begin in the `searched` bytes is not in fewer bytes than were ensured. -/
theorem not_prefix_waiting {target : List UInt8} {searched : Nat} {r r' : Reader}
    (hs : r'.stream = r.stream) (h : ∀ j < searched, ¬ target <+: r.stream.drop j)
    (hl : r'.readBuf.len < searched + target.length) (i : Nat) :
    ¬ target <+: r'.readBuf.waiting.drop i := by
  intro hp
  have hlen := hp.length_le
  rw [List.length_drop, Buffer.length_waiting] at hlen
  -- an empty mark would begin in the searched bytes
  have hi : i < searched ∧ i + target.length ≤ r'.readBuf.waiting.length ∨ target = [] := by
    cases target with
    | nil => exact Or.inr rfl
    | cons a t =>
      simp only [List.length_cons, Buffer.length_waiting] at hl hlen ⊢
      omega
  rcases hi with ⟨hi, hin⟩ | rfl
  · refine h i hi ?_
    rw [← hs, stream]
    exact (prefix_drop_append _ hin).mpr hp
  · exact h (searched - 1) (by simp only [List.length_nil] at hl; omega) List.nil_prefix

/-- The part of the buffer that is searched. -/
theorem slice_waiting (b : Buffer) (n : Nat) :
    slice b.buf (b.start + n) (b.len - n) = b.waiting.drop n := by
  refine List.ext_getElem? fun i => ?_
  rw [slice_getElem?, List.getElem?_drop, Buffer.waiting_getElem?, Nat.add_assoc]
  congr 1
  rw [eq_iff_iff]
  omega

theorem findOpt_finds {target : List UInt8} {searched : Nat} (r : Reader)
    (h : ∀ j < searched, ¬ target <+: r.stream.drop j) :
    Finds target r (r.findOpt target searched).1 (r.findOpt target searched).2 := by
  fun_induction findOpt target searched r with
  | case1 searched r r' he =>
    cases ensures_of he with
    | ended hs ht hend hw hl => exact .absent hs ht hend hw (hw ▸ not_prefix_waiting hs h hl)
  | case2 searched r r' he i hf =>
    cases ensures_of he with
    | enough hs ht hl =>
      have hl : searched + target.length ≤ r'.readBuf.len := hl
      rw [slice_waiting] at hf
      have hfirst := find_firstAt hf
      have hin := hfirst.le
      rw [List.length_drop, Buffer.length_waiting] at hin
      have hend : searched + i + target.length ≤ r'.readBuf.len := by omega
      have hsub : ∀ j, j + target.length ≤ r'.readBuf.len →
          (target <+: r.stream.drop j ↔ target <+: r'.readBuf.waiting.drop j) := by
        intro j hj
        rw [← hs, stream, prefix_drop_append _ (by rw [Buffer.length_waiting]; exact hj)]
      refine .found hs ht ⟨(hsub _ hend).mpr ?_, fun j hj hp => ?_⟩ hend
      · rw [← List.drop_drop]
        exact hfirst.here
      · by_cases hjs : j < searched
        · exact h j hjs hp
        · refine hfirst.first (j - searched) (by omega) ?_
          rw [List.drop_drop, show searched + (j - searched) = j by omega]
          exact (hsub j (by omega)).mp hp
  | case3 searched r r' he hf ih =>
    cases ensures_of he with
    | enough hs ht hl =>
      have hl : searched + target.length ≤ r'.readBuf.len := hl
      rw [slice_waiting] at hf
      refine (ih fun j hj hp => ?_).of_stream hs ht
      by_cases hjs : j < searched
      · exact h j hjs (hs ▸ hp)
      · refine find_none hf (j - searched) ?_
        rw [List.drop_drop, show searched + (j - searched) = j by omega]
        exact (prefix_drop_append _ (by rw [Buffer.length_waiting]; omega)).mp hp
  | case4 searched r m r' he =>
    cases ensures_of he with
    | raised _ hs ht hl => exact .raised m hs ht (not_prefix_waiting hs h hl)
  | case5 searched r r' he =>
    cases ensures_of he with
    | expired hs ht hl => exact .expired hs ht (not_prefix_waiting hs h hl)

theorem findOpt_room {target : List UInt8} {r r' : Reader} {i : Nat}
    (h : r.findOpt target 0 = (.value (some i), r')) : i + target.length ≤ r'.readBuf.len := by
  have hf := @findOpt_finds target 0 r nofun
  rw [h] at hf
  cases hf with
  | found _ _ _ hl => exact hl

/-- `decode` is `@utf8.decode`, which raises an error for bytes that are not UTF-8. -/
def readUntil (decode : List UInt8 → Except String String) (sep : List UInt8) (self : Reader) :
    Await (Option String) × Reader :=
  match h : self.findOpt sep 0 with
  | (.value none, r) =>
    if r.readBuf.len > 0 then
      match decode (slice r.readBuf.buf r.readBuf.start r.readBuf.len) with
      | .ok remaining =>
        (.value (some remaining), { r with readBuf := r.readBuf.drop r.readBuf.len (Nat.le_refl _) })
      | .error m => (.raised m, r)
    else (.value none, r)
  | (.value (some index), r) =>
    match decode (slice r.readBuf.buf r.readBuf.start index) with
    | .ok result =>
      (.value (some result),
        { r with readBuf := r.readBuf.drop (index + sep.length) (findOpt_room h) })
    | .error m => (.raised m, r)
  | (.raised m, r) => (.raised m, r)
  | (.expired, r) => (.expired, r)

end Reader

/-- `@utf8.decode` on bytes that are ASCII. -/
def decodeAscii (l : List UInt8) : Except String String :=
  if l.all (· < 128) then .ok (String.ofList (l.map fun b => Char.ofNat b.toNat)) else .error "Malformed"

/-! ## 5. A reader as a list of bytes -/

/-- The operations of a reader. Lengths are not negative, and a read asks for at least one byte: what a
    read of no bytes finds at a socket is up to the system call. -/
inductive ReadOp where
  | read (maxLen : Nat) (h : 0 < maxLen)
  | readExactly (len : Nat)
  | drop (len : Nat)
  | readSome (maxLen : Option Nat) (h : maxLen ≠ some 0)
  | readUntil (sep : List UInt8)

namespace ReadOp

@[reducible] def Result : ReadOp → Type
  | .read _ _ => List UInt8
  | .readExactly _ => List UInt8
  | .drop _ => Nat
  | .readSome _ _ => Option (List UInt8)
  | .readUntil _ => Option String

/-- How many bytes may be lost where the operation is interrupted. -/
def mayLose : ReadOp → Nat
  | .readExactly len => len
  | .drop len => len
  | _ => 0

/-- The bytes `w` in front of an interruption are not enough for it. -/
def Wants : ReadOp → List UInt8 → Prop
  | .read _ _, w => w.length = 0
  | .readExactly len, w => w.length < len
  | .drop len, w => w.length < len
  | .readSome _ _, w => w.length = 0
  | .readUntil sep, w => ∀ i, ¬ sep <+: w.drop i

end ReadOp

section Refine

variable (decode : List UInt8 → Except String String)

def Reader.step : (o : ReadOp) → Reader → Await o.Result × Reader
  | .read maxLen _, r => r.read maxLen
  | .readExactly len, r => r.readExactly len
  | .drop len, r => r.drop len
  | .readSome maxLen _, r => r.readSome maxLen
  | .readUntil sep, r => r.readUntil decode sep

/-- What an operation gives that is not interrupted, from the bytes `l` and up to `l'`. -/
inductive Gives : (o : ReadOp) → List UInt8 → Await o.Result → List UInt8 → Prop where
  | read {maxLen : Nat} {h : 0 < maxLen} {l p l' : List UInt8} (hs : l = p ++ l')
      (hl : p.length ≤ maxLen) (hp : p = [] → l' = []) : Gives (.read maxLen h) l (.value p) l'
  | readExactly {len : Nat} {l p l' : List UInt8} (hs : l = p ++ l') (hl : p.length = len) :
      Gives (.readExactly len) l (.value p) l'
  | closed {len : Nat} {l : List UInt8} (h : l.length < len) :
      Gives (.readExactly len) l (.raised "ReaderClosed") []
  | drop {len : Nat} {l p l' : List UInt8} (hs : l = p ++ l') (hl : p.length = len) :
      Gives (.drop len) l (.value len) l'
  | dropped {len : Nat} {l : List UInt8} (h : l.length < len) :
      Gives (.drop len) l (.value l.length) []
  | readSome {maxLen : Option Nat} {h : maxLen ≠ some 0} {l p l' : List UInt8} (hs : l = p ++ l')
      (hl : ∀ m ∈ maxLen, p.length ≤ m) (hp : p ≠ []) : Gives (.readSome maxLen h) l (.value (some p)) l'
  | readNone {maxLen : Option Nat} {h : maxLen ≠ some 0} : Gives (.readSome maxLen h) [] (.value none) []
  | readUntil {sep l : List UInt8} {i : Nat} {t : String} (h : FirstAt sep l i)
      (ht : decode (l.take i) = .ok t) :
      Gives (.readUntil sep) l (.value (some t)) (l.drop (i + sep.length))
  | readLast {sep l : List UInt8} {t : String} (h : ∀ i, ¬ sep <+: l.drop i) (hl : l ≠ [])
      (ht : decode l = .ok t) : Gives (.readUntil sep) l (.value (some t)) []
  | noText {sep l bad : List UInt8} {m : String}
      (h : (∃ i, FirstAt sep l i ∧ bad = l.take i) ∨ (∀ i, ¬ sep <+: l.drop i) ∧ l ≠ [] ∧ bad = l)
      (ht : decode bad = .error m) : Gives (.readUntil sep) l (.raised m) l
  | atEnd {sep : List UInt8} (h : sep ≠ []) : Gives (.readUntil sep) [] (.value none) []

/-- An operation that is interrupted by `i`, and loses at most `n` bytes. -/
inductive Lost (n : Nat) {α : Type} : Interrupt → List UInt8 → Await α → List UInt8 → Prop where
  | raised (m : String) {l p l' : List UInt8} (hs : l = p ++ l') (h : p.length ≤ n) :
      Lost n (.raised m) l (.raised m) l'
  | expired {l p l' : List UInt8} (hs : l = p ++ l') (h : p.length ≤ n) :
      Lost n .expired l .expired l'

theorem Lost.raised_nothing {n : Nat} {α : Type} (m : String) {l l' : List UInt8} (h : l = l') :
    Lost n (.raised m) l (.raised m : Await α) l' := .raised m (p := []) h (Nat.zero_le n)

theorem Lost.expired_nothing {n : Nat} {α : Type} {l l' : List UInt8} (h : l = l') :
    Lost n .expired l (.expired : Await α) l' := .expired (p := []) h (Nat.zero_le n)

def Await.map {α β : Type} (f : α → β) : Await α → Await β
  | .value a => .value (f a)
  | .raised m => .raised m
  | .expired => .expired

theorem Lost.lost {n : Nat} {α : Type} {i : Interrupt} {l l' : List UInt8} {x : Await α}
    (h : Lost n i l x l') : ∃ p : List UInt8, p.length ≤ n ∧ l = p ++ l' := by
  cases h with
  | raised m hs hp => exact ⟨_, hp, hs⟩
  | expired hs hp => exact ⟨_, hp, hs⟩

/-- The bytes `w` are lost as well. -/
theorem Lost.behind {n : Nat} {α β : Type} {i : Interrupt} {l l' : List UInt8} {x : Await α}
    (h : Lost n i l x l') (w : List UInt8) (f : α → β) :
    Lost (w.length + n) i (w ++ l) (x.map f) l' := by
  cases h with
  | raised m hs hp =>
    refine .raised m (by rw [hs, List.append_assoc]) ?_
    rw [List.length_append]
    exact Nat.add_le_add_left hp _
  | expired hs hp =>
    refine .expired (by rw [hs, List.append_assoc]) ?_
    rw [List.length_append]
    exact Nat.add_le_add_left hp _

/-- What is still to be read, and the interruptions on the way. -/
structure Rest where
  bytes : List UInt8
  stops : List Interruption

/-- The bytes in front of an interruption that has `n` behind it. -/
def Rest.ahead (s : Rest) (n : Nat) : List UInt8 := s.bytes.take (s.bytes.length - n)

/-- One operation on a list of bytes. It is interrupted where the bytes in front of the next
    interruption are not enough, and by that one; else it takes no byte from behind one. -/
inductive Takes (o : ReadOp) : Rest → Await o.Result → Rest → Prop where
  | given {s s' : Rest} {x : Await o.Result} (h : Gives decode o s.bytes x s'.bytes)
      (ht : s'.stops = s.stops)
      (hn : ∀ n ∈ s.stops, n.behind ≤ s'.bytes.length ∧ ¬ o.Wants (s.ahead n.behind)) : Takes o s x s'
  | stopped {s s' : Rest} {x : Await o.Result} (n : Interruption)
      (h : Lost o.mayLose n.how s.bytes x s'.bytes) (ht : s.stops = n :: s'.stops)
      (hn : n.behind ≤ s'.bytes.length) (hw : o.Wants (s.ahead n.behind)) : Takes o s x s'

def Reader.rest (r : Reader) : Rest := ⟨r.stream, r.input.stops⟩

/-- An operation of a reader is one on what it has still to read. -/
def Feeds (o : ReadOp) (r : Reader) (x : Await o.Result) (r' : Reader) : Prop :=
  Takes decode o r.rest x r'.rest

variable {decode}

@[simp] theorem Rest.length_ahead (s : Rest) (n : Nat) : (s.ahead n).length = s.bytes.length - n := by
  simp only [ahead, List.length_take]
  omega

theorem Reader.length_ahead (r : Reader) (n : Nat) :
    (r.rest.ahead n).length = r.stream.length - n := Rest.length_ahead _ _

theorem Reader.ahead_nil {r : Reader} {l : List UInt8} (h : r.stream = l) :
    (r.rest.ahead l.length).length = 0 := by
  rw [r.length_ahead, h, Nat.sub_self]

namespace Feeds

variable {o : ReadOp} {r r' : Reader} {x : Await o.Result}

theorem cases_on (h : Feeds decode o r x r') :
    (Gives decode o r.stream x r'.stream ∧ r'.input.stops = r.input.stops ∧
      ∀ n ∈ r.input.stops, n.behind ≤ r'.stream.length ∧ ¬ o.Wants (r.rest.ahead n.behind)) ∨
    ∃ i n, Lost o.mayLose i r.stream x r'.stream ∧ r.input.stops = ⟨i, n⟩ :: r'.input.stops ∧
      n ≤ r'.stream.length ∧ o.Wants (r.rest.ahead n) := by
  cases h with
  | given h ht hn => exact Or.inl ⟨h, ht, hn⟩
  | stopped n h ht hn hw => exact Or.inr ⟨n.how, n.behind, h, ht, hn, hw⟩

theorem quiet (h : Feeds decode o r x r') (hq : r.input.Quiet) : r'.input.Quiet := by
  rw [Input.quiet_iff] at hq ⊢
  rcases h.cases_on with ⟨-, ht, -⟩ | ⟨i, n, -, ht, -⟩
  · exact ht.trans hq
  · rw [hq] at ht
    cases ht

/-- It is only interrupted where the input is. -/
theorem gives (h : Feeds decode o r x r') :
    Gives decode o r.stream x r'.stream ∨
      (¬ r.input.Quiet ∧ ∃ i, Lost o.mayLose i r.stream x r'.stream) := by
  rcases h.cases_on with ⟨hg, -⟩ | ⟨i, n, hl, ht, -⟩
  · exact Or.inl hg
  · refine Or.inr ⟨fun hq => ?_, i, hl⟩
    rw [Input.quiet_iff.mp hq] at ht
    cases ht

/-- The interruptions stay where they are, behind what the operation has seen. -/
theorem of_gives (h : Gives decode o r.stream x r'.stream) (ht : r'.input.stops = r.input.stops)
    (hn : ∀ n, n ≤ r'.input.bytes.length → ¬ o.Wants (r.rest.ahead n)) : Feeds decode o r x r' := by
  refine .given h ht fun n hmem => ?_
  have hle : n.behind ≤ r'.input.bytes.length := Input.le_of_mem_stops (ht ▸ hmem)
  refine ⟨?_, hn n.behind hle⟩
  show n.behind ≤ r'.stream.length
  rw [r'.length_stream]
  omega

/-- The end is in sight. -/
theorem of_end (h : Gives decode o r.stream x r'.stream) (ht : r'.input.stops = r.input.stops)
    (he : r.input.stops = []) : Feeds decode o r x r' := by
  refine .given h ht fun n hmem => ?_
  have hmem : n ∈ r.input.stops := hmem
  rw [he] at hmem
  cases hmem

theorem of_lost {i : Interrupt} (h : Lost o.mayLose i r.stream x r'.stream)
    (ht : r.input.stops = ⟨i, r'.input.bytes.length⟩ :: r'.input.stops)
    (hw : o.Wants (r.rest.ahead r'.input.bytes.length)) : Feeds decode o r x r' := by
  refine .stopped _ h ht ?_ hw
  show r'.input.bytes.length ≤ r'.stream.length
  rw [r'.length_stream]
  omega

/-- An operation that has got the bytes `w` goes on with the rest of its bytes. -/
theorem behind {o₁ : ReadOp} {w : List UInt8} {r₁ : Reader} {y : Await o₁.Result}
    (h : Feeds decode o₁ r₁ y r') (f : o₁.Result → o.Result) (hs : r.stream = w ++ r₁.stream)
    (ht : r₁.input.stops = r.input.stops)
    (hg : ∀ l l', Gives decode o₁ l y l' → Gives decode o (w ++ l) (y.map f) l')
    (hl : w.length + o₁.mayLose = o.mayLose)
    (hw : ∀ v v' : List UInt8, v'.length = w.length + v.length → (o.Wants v' ↔ o₁.Wants v)) :
    Feeds decode o r (y.map f) r' := by
  have hahead : ∀ n ∈ r₁.input.stops,
      (o.Wants (r.rest.ahead n.behind) ↔ o₁.Wants (r₁.rest.ahead n.behind)) := by
    intro n hn
    have hle := Input.le_of_mem_stops hn
    have hlen := r₁.length_stream
    refine hw _ _ ?_
    rw [Reader.length_ahead, Reader.length_ahead, hs, List.length_append]
    omega
  rcases h.cases_on with ⟨h₁, ht₁, hn⟩ | ⟨i, n, h₁, ht₁, hn, hw₁⟩
  · refine .given (hs ▸ hg _ _ h₁ : Gives decode o r.stream (y.map f) r'.stream) (ht₁.trans ht) fun n hmem => ?_
    have hmem : n ∈ r₁.input.stops := ht ▸ hmem
    obtain ⟨hle, hw₁⟩ := hn n hmem
    exact ⟨hle, fun hw₂ => hw₁ ((hahead n hmem).mp hw₂)⟩
  · refine .stopped ⟨i, n⟩ ?_ (ht.symm.trans ht₁) hn
      ((hahead ⟨i, n⟩ (ht₁ ▸ List.mem_cons_self ..)).mpr hw₁)
    show Lost o.mayLose i r.stream (y.map f) r'.stream
    rw [hs, ← hl]
    exact h₁.behind w f

end Feeds

theorem Reader.stream_of_empty {r : Reader} (h : ¬ r.readBuf.len > 0) : r.stream = r.input.bytes := by
  rw [Reader.stream, Buffer.waiting_eq_nil (by omega)]
  rfl

/-- The first bytes that wait are taken. -/
theorem Reader.stream_take (r : Reader) {n : Nat} (h : n ≤ r.readBuf.len) :
    r.stream = slice r.readBuf.buf r.readBuf.start n ++
      ({ r with readBuf := r.readBuf.drop n h } : Reader).stream := by
  have htake : slice r.readBuf.buf r.readBuf.start n = r.readBuf.waiting.take n := by
    rw [Buffer.waiting, slice, slice, List.take_take, Nat.min_eq_left h]
  rw [Reader.stream, Reader.stream, Buffer.waiting_drop, htake, ← List.append_assoc,
    List.take_append_drop]

theorem read_feeds {maxLen : Nat} (hm : 0 < maxLen) (r : Reader) :
    Feeds decode (.read maxLen hm) r (r.read maxLen).1 (r.read maxLen).2 := by
  have hsum := r.length_stream
  unfold Reader.read
  simp only
  split
  · rename_i hlen
    have hn : min maxLen r.readBuf.len ≤ r.readBuf.len := Nat.min_le_right _ _
    have hl := r.readBuf.fits
    refine .of_gives (.read (r.stream_take hn) ?_ fun hp => ?_) rfl fun n (hle : n ≤ r.input.bytes.length) => ?_
    · simp only [length_slice]
      omega
    · have := congrArg List.length hp
      simp only [length_slice, List.length_nil] at this
      omega
    · rw [ReadOp.Wants, Reader.length_ahead]
      omega
  · rename_i hlen
    have hs := Reader.stream_of_empty hlen
    cases hd : r.input.directRead maxLen with
    | mk x input =>
      have hs' : ({ r with input } : Reader).stream = input.bytes := Reader.stream_of_empty hlen
      cases Input.reads_of hm hd with
      | piece s hne hb ht =>
        refine .of_gives (.read ?_ s.property fun hp => ?_) ht fun n (hle : n ≤ input.bytes.length) => ?_
        · rw [hs, hs', hb]
        · rw [hp] at hne
          exact absurd rfl hne
        · rw [ReadOp.Wants, Reader.length_ahead, hs, hb, List.length_append]
          omega
      | ended hb ht =>
        refine .of_end (.read ?_ (Nat.zero_le _) fun _ => hs') ht.symm ht
        rw [hs, hs', hb]
        rfl
      | broken m hb ht =>
        exact .of_lost (.raised_nothing m ((hs.trans hb).trans hs'.symm)) ht
          (Reader.ahead_nil (hs.trans hb))
      | expired hb ht =>
        exact .of_lost (.expired_nothing ((hs.trans hb).trans hs'.symm)) ht
          (Reader.ahead_nil (hs.trans hb))

theorem read_feeds_of {maxLen : Nat} (hm : 0 < maxLen) {r r' : Reader} {x : Await (List UInt8)}
    (h : r.read maxLen = (x, r')) : Feeds decode (.read maxLen hm) r x r' := by
  have hs := @read_feeds decode maxLen hm r
  rw [h] at hs
  exact hs

/-- A read that returns bytes; it returns none at the end. -/
theorem Feeds.read_value {maxLen : Nat} {hm : 0 < maxLen} {r r' : Reader} {p : List UInt8}
    (h : Feeds decode (.read maxLen hm) r (.value p) r') :
    r.stream = p ++ r'.stream ∧ p.length ≤ maxLen ∧ r'.input.stops = r.input.stops ∧
      (p = [] → r'.stream = [] ∧ r.input.stops = []) := by
  rcases h.cases_on with ⟨hg, ht, hn⟩ | ⟨i, n, hl, -⟩
  · cases hg with
    | read hs hle hp =>
      refine ⟨hs, hle, ht, fun hnil => ⟨hp hnil, List.eq_nil_iff_forall_not_mem.mpr fun n hmem => ?_⟩⟩
      -- an interruption would have bytes in front of it
      refine (hn n hmem).2 ?_
      rw [ReadOp.Wants, Reader.length_ahead, hs, hnil, hp hnil]
      exact Nat.zero_sub n.behind
  · cases hl

/-- A read that is interrupted takes nothing, and nothing is in front of the interruption. -/
theorem Feeds.read_stopped {maxLen : Nat} {hm : 0 < maxLen} {r r' : Reader} {x : Await (List UInt8)}
    {i : Interrupt} (h : Feeds decode (.read maxLen hm) r x r') (hx : x.toExcept = .error i) :
    r.stream = r'.stream ∧ r.input.stops = ⟨i, r.stream.length⟩ :: r'.input.stops := by
  rcases h.cases_on with ⟨hg, -⟩ | ⟨i', n, hl, ht, hn, hw⟩
  · cases hg
    cases hx
  · have hi : i' = i := by cases hl <;> exact Except.error.inj hx
    subst hi
    obtain ⟨p, hp, hs⟩ := hl.lost
    rw [List.length_eq_zero_iff.mp (Nat.le_zero.mp hp), List.nil_append] at hs
    rw [ReadOp.Wants, Reader.length_ahead] at hw
    rw [← hs] at hn
    exact ⟨hs, by rw [show r.stream.length = n by omega]; exact ht⟩

/-- A read of some bytes, then of the rest. -/
theorem Feeds.exactly {n : Nat} {new : List UInt8} {r r₁ r' : Reader} {x : Await (List UInt8)}
    (h : Feeds decode (.readExactly n) r₁ x r') (hs : r.stream = new ++ r₁.stream)
    (ht : r₁.input.stops = r.input.stops) :
    Feeds decode (.readExactly (new.length + n)) r (x.map (new ++ ·)) r' := by
  refine h.behind (o := .readExactly (new.length + n)) (new ++ ·) hs ht (fun l l' hg => ?_) rfl
    fun v v' hv => ?_
  · cases hg with
    | readExactly hs₁ hlen =>
      subst hs₁
      exact .readExactly (List.append_assoc _ _ _).symm (by rw [List.length_append, hlen])
    | closed hlen => exact .closed (by rw [List.length_append]; omega)
  · simp only [ReadOp.Wants, hv]
    omega

/-- The loop of `read_exactly` reads what is missing in `dst`. -/
theorem readLoop_feeds {len received : Nat} {dst : List UInt8} (r : Reader) (hd : dst.length = len)
    (hr : received ≤ len) :
    ∃ x : Await (List UInt8), (r.readLoop len dst received).1 = x.map (dst.take received ++ ·) ∧
      Feeds decode (.readExactly (len - received)) r x (r.readLoop len dst received).2 := by
  -- before the loop ends bytes are missing
  have hwants : ∀ {r : Reader} {received : Nat}, received < len →
      (ReadOp.readExactly (len - received)).Wants (r.rest.ahead r.stream.length) := by
    intro r received hlt
    rw [ReadOp.Wants, Reader.length_ahead]
    omega
  fun_induction Reader.readLoop len dst received r with
  | case1 dst received r hlt new r' he hn =>
    have hs := @read_feeds_of decode _ (show 0 < len - received by omega) _ _ _ he
    obtain ⟨hstream, -, ht, hend⟩ := hs.read_value
    have hnil : new = [] := List.length_eq_zero_iff.mp hn
    obtain ⟨hend, hstops⟩ := hend hnil
    refine ⟨.raised "ReaderClosed", rfl, .of_end ?_ ht hstops⟩
    rw [hstream, hnil, hend]
    exact .closed (show 0 < len - received by omega)
  | case2 dst received r hlt new r' he hn ih =>
    have hs := @read_feeds_of decode _ (show 0 < len - received by omega) _ _ _ he
    obtain ⟨hstream, hle, ht, -⟩ := hs.read_value
    have hfit : received + new.length ≤ dst.length := by omega
    obtain ⟨x, hx, hgives⟩ := ih (by rw [length_clip]; exact hd) (by omega)
    rw [take_clip dst hfit] at hx
    refine ⟨x.map (new ++ ·), ?_, ?_⟩
    · rw [hx]
      cases x with
      | value v => exact congrArg Await.value (List.append_assoc _ _ _)
      | raised m => rfl
      | expired => rfl
    · rw [show len - received = new.length + (len - (received + new.length)) by omega]
      exact hgives.exactly hstream ht
  | case3 dst received r hlt m r' he =>
    have hs := @read_feeds_of decode _ (show 0 < len - received by omega) _ _ _ he
    obtain ⟨hstream, ht⟩ := hs.read_stopped rfl
    exact ⟨.raised m, rfl, .stopped _ (.raised_nothing m hstream) ht
      (Nat.le_of_eq (congrArg List.length hstream)) (hwants hlt)⟩
  | case4 dst received r hlt r' he =>
    have hs := @read_feeds_of decode _ (show 0 < len - received by omega) _ _ _ he
    obtain ⟨hstream, ht⟩ := hs.read_stopped rfl
    exact ⟨.expired, rfl, .stopped _ (.expired_nothing hstream) ht
      (Nat.le_of_eq (congrArg List.length hstream)) (hwants hlt)⟩
  | case5 dst received r hge =>
    refine ⟨.value [], ?_, .of_gives (.readExactly rfl (by simp; omega)) rfl fun n _ => ?_⟩
    · show Await.value dst = .value (dst.take received ++ [])
      rw [List.append_nil, List.take_of_length_le (by omega)]
    · rw [ReadOp.Wants]
      omega

theorem readExactly_feeds (len : Nat) (r : Reader) :
    Feeds decode (.readExactly len) r (r.readExactly len).1 (r.readExactly len).2 := by
  obtain ⟨x, hx, hs⟩ := @readLoop_feeds decode len 0 (List.replicate len 48) r
    List.length_replicate (Nat.zero_le len)
  have hx : (r.readExactly len).1 = x := by
    rw [Reader.readExactly, hx]
    cases x <;> rfl
  rw [hx]
  exact hs

/-- A drop of some bytes, then of the rest. -/
theorem Feeds.dropping {n : Nat} {w : List UInt8} {r r₁ r' : Reader} {x : Await Nat}
    (h : Feeds decode (.drop n) r₁ x r') (hs : r.stream = w ++ r₁.stream)
    (ht : r₁.input.stops = r.input.stops) :
    Feeds decode (.drop (w.length + n)) r (x.map (w.length + ·)) r' := by
  refine h.behind (o := .drop (w.length + n)) (w.length + ·) hs ht (fun l l' hg => ?_) rfl
    fun v v' hv => ?_
  · cases hg with
    | drop hs₁ hlen =>
      subst hs₁
      exact .drop (List.append_assoc _ _ _).symm (by rw [List.length_append, hlen])
    | dropped hlen =>
      show Gives decode (.drop (w.length + n)) (w ++ l) (.value (w.length + l.length)) []
      rw [← List.length_append]
      exact .dropped (by rw [List.length_append]; omega)
  · simp only [ReadOp.Wants, hv]
    omega

/-- The loop of `drop` drops what waits, and what is missing. -/
theorem dropLoop_feeds {len dropped : Nat} (r : Reader) (h : dropped - len ≤ r.readBuf.len)
    (hle : r.readBuf.len ≤ dropped) (hstart : r.readBuf.start = 0) (hcap : 0 < r.readBuf.buf.length) :
    ∃ x : Await Nat, (r.dropLoop len dropped h).1 = x.map (dropped - r.readBuf.len + ·) ∧
      Feeds decode (.drop (len - (dropped - r.readBuf.len))) r x (r.dropLoop len dropped h).2 := by
  have hw := r.readBuf.length_waiting
  -- before the loop ends more bytes are missing than wait
  have hwants : ∀ {r : Reader} {dropped n : Nat}, dropped < len → r.readBuf.len ≤ dropped →
      r.input.bytes.length ≤ n →
      (ReadOp.drop (len - (dropped - r.readBuf.len))).Wants (r.rest.ahead n) := by
    intro r dropped n hlt hle hn
    rw [ReadOp.Wants, Reader.length_ahead, r.length_stream]
    omega
  fun_induction Reader.dropLoop len dropped r h with
  | case1 dropped r h buf hlt s input hd hn =>
    cases Input.reads_of hcap hd with
    | piece _ hne => exact absurd hn hne
    | ended hb ht =>
      have hs : r.stream = r.readBuf.waiting := by rw [Reader.stream, hb, List.append_nil]
      refine ⟨.value r.readBuf.waiting.length, ?_, .of_end ?_ ht.symm ht⟩
      · show Await.value dropped = .value (dropped - r.readBuf.len + r.readBuf.waiting.length)
        rw [hw, Nat.sub_add_cancel hle]
      · rw [hs]
        exact .dropped (by rw [hw]; omega)
  | case2 dropped r h buf hlt s input hd hn ih =>
    cases Input.reads_of hcap hd with
    | piece _ hne hb ht =>
      have hwait := r.readBuf.waiting_refill (Nat.zero_add s.val.length) s.property
      obtain ⟨x, hx, hgives⟩ := ih (Nat.le_add_left _ _) rfl
        (by rw [Buffer.refill, length_clip]; exact hcap) (Buffer.length_waiting _)
      have hlast : dropped + s.val.length - s.val.length = dropped := Nat.add_sub_cancel _ _
      refine ⟨x.map (r.readBuf.waiting.length + ·), ?_, ?_⟩
      · rw [hx, hw]
        show x.map (dropped + s.val.length - s.val.length + ·) = _
        rw [hlast]
        cases x with
        | value n =>
          refine congrArg Await.value ?_
          show dropped + n = dropped - r.readBuf.len + (r.readBuf.len + n)
          omega
        | raised m => rfl
        | expired => rfl
      · rw [show len - (dropped - r.readBuf.len) = r.readBuf.waiting.length + (len - dropped) by omega]
        refine Feeds.dropping (hlast ▸ hgives) ?_ ht
        rw [Reader.stream, Reader.stream, hwait, hb]
        rfl
    | ended => exact absurd rfl hn
  | case3 dropped r h buf hlt m input hd =>
    cases Input.reads_of hcap hd with
    | broken _ hb ht =>
      have hs : r.stream = ({ r with input := .eof } : Reader).stream := congrArg (r.readBuf.waiting ++ ·) hb
      exact ⟨.raised m, rfl, .of_lost (.raised_nothing m hs) ht
        (hwants hlt hle (Nat.le_of_eq (congrArg List.length hb)))⟩
  | case4 dropped r h buf hlt input hd =>
    cases Input.reads_of hcap hd with
    | expired hb ht =>
      have hs : r.stream = ({ r with input } : Reader).stream := congrArg (r.readBuf.waiting ++ ·) hb
      exact ⟨.expired, rfl, .of_lost (.expired_nothing hs) ht
        (hwants hlt hle (Nat.le_of_eq (congrArg List.length hb)))⟩
  | case5 dropped r h buf hge =>
    refine ⟨.value (len - (dropped - r.readBuf.len)), ?_, .of_gives (.drop
      (p := slice r.readBuf.buf 0 (r.readBuf.len - (dropped - len))) ?_ ?_) rfl
      fun n (hn : n ≤ r.input.bytes.length) => ?_⟩
    · refine congrArg Await.value ?_
      show len = dropped - r.readBuf.len + (len - (dropped - r.readBuf.len))
      omega
    · show r.readBuf.waiting ++ r.input.bytes = _ ++ (slice r.readBuf.buf _ _ ++ r.input.bytes)
      rw [← List.append_assoc, Buffer.waiting, hstart]
      congr 1
      have hadd := slice_add r.readBuf.buf 0 (r.readBuf.len - (dropped - len)) (dropped - len)
      rw [Nat.sub_add_cancel h, Nat.zero_add] at hadd
      exact hadd
    · have := r.readBuf.fits
      simp only [length_slice]
      omega
    · rw [ReadOp.Wants, Reader.length_ahead, r.length_stream]
      omega

/-- From an empty buffer it drops what is missing. -/
theorem dropLoop_feeds_empty {len dropped : Nat} (r : Reader) (h : dropped - len ≤ r.readBuf.len)
    (h0 : r.readBuf.len = 0) (hstart : r.readBuf.start = 0) (hcap : 0 < r.readBuf.buf.length) :
    ∃ x : Await Nat, (r.dropLoop len dropped h).1 = x.map (dropped + ·) ∧
      Feeds decode (.drop (len - dropped)) r x (r.dropLoop len dropped h).2 := by
  have hl := @dropLoop_feeds decode len dropped r h (by omega) hstart hcap
  rw [h0, Nat.sub_zero] at hl
  exact hl

theorem drop_feeds (len : Nat) (r : Reader) :
    Feeds decode (.drop len) r (r.drop len).1 (r.drop len).2 := by
  have hw := r.readBuf.length_waiting
  unfold Reader.drop
  simp only
  split
  · rename_i h
    refine .of_gives (.drop (r.stream_take h) ?_) rfl fun n (hn : n ≤ r.input.bytes.length) => ?_
    · have := r.readBuf.fits
      simp only [length_slice]
      omega
    · rw [ReadOp.Wants, Reader.length_ahead, r.length_stream]
      omega
  · rename_i h
    -- nothing waits in the buffer that the loop begins with
    have hroom := Buffer.room_enlargeTo (r.readBuf.drop r.readBuf.len (Nat.le_refl _)) 1
    obtain ⟨x, hx, hgives⟩ := @dropLoop_feeds_empty decode len r.readBuf.len
      ⟨(r.readBuf.drop r.readBuf.len (Nat.le_refl _)).enlargeTo 1, r.input⟩ (by omega) (by simp)
      (Buffer.start_enlargeTo r.readBuf.start_drop_len 1) (Nat.lt_of_lt_of_le (Nat.succ_pos _) hroom)
    have hall := hgives.dropping (w := r.readBuf.waiting) (r := r) ?_ rfl
    · rw [hw, Nat.add_sub_cancel' (by omega)] at hall
      rw [hx]
      exact hall
    · rw [Reader.stream, Reader.stream, Buffer.waiting_enlargeTo, Buffer.waiting_drop,
        List.drop_of_length_le (Nat.le_of_eq hw), List.nil_append]

section ReadSome

variable {maxLen : Option Nat} {n : Nat}

theorem getD_pos (hm : maxLen ≠ some 0) (hn : 0 < n) : 0 < maxLen.getD n := by
  cases maxLen with
  | none => exact hn
  | some m => exact Nat.pos_of_ne_zero fun h0 => hm (congrArg some h0)

/-- What is returned is not longer than asked. -/
theorem getD_le (h : maxLen.getD n < n) : ∀ m ∈ maxLen, maxLen.getD n ≤ m := by
  intro m hm'
  cases hm'
  exact Nat.le_refl _

theorem le_of_getD (h : ¬ maxLen.getD n < n) : ∀ m ∈ maxLen, n ≤ m := by
  intro m hm'
  cases hm'
  exact Nat.le_of_not_lt h

end ReadSome

/-- What waits in the buffer, or the first bytes of it. -/
theorem readSome_waiting {maxLen : Option Nat} (hm : maxLen ≠ some 0) {r : Reader}
    (hlen : r.readBuf.len > 0) :
    Feeds decode (.readSome maxLen hm) r (r.readSome maxLen).1 (r.readSome maxLen).2 := by
  have hfits := r.readBuf.fits
  have hm0 := getD_pos hm hlen
  -- bytes that wait are in front of every interruption
  have hwaits : ∀ n, n ≤ r.input.bytes.length →
      ¬ (ReadOp.readSome maxLen hm).Wants (r.rest.ahead n) := by
    intro n hn
    rw [ReadOp.Wants, Reader.length_ahead, r.length_stream]
    omega
  unfold Reader.readSome
  simp only [if_pos hlen]
  split
  · rename_i hlt
    have htake := r.stream_take (Nat.le_of_lt hlt)
    have hd : (r.readBuf.drop (maxLen.getD r.readBuf.len) (Nat.le_of_lt hlt)) =
        ⟨r.readBuf.buf, r.readBuf.start + maxLen.getD r.readBuf.len,
          r.readBuf.len - maxLen.getD r.readBuf.len, by omega⟩ := if_neg (by omega)
    rw [hd] at htake
    refine .of_gives (.readSome htake (fun m hm' => ?_) fun hp => ?_) rfl hwaits
    · refine Nat.le_trans ?_ (getD_le hlt m hm')
      simp only [length_slice]
      omega
    · have := congrArg List.length hp
      simp only [length_slice, List.length_nil] at this
      omega
  · rename_i hge
    have htake := r.stream_take (Nat.le_refl _)
    have hd : r.readBuf.drop r.readBuf.len (Nat.le_refl _) = ⟨r.readBuf.buf, 0, 0, Nat.zero_le _⟩ :=
      if_pos (Nat.sub_self _)
    rw [hd] at htake
    refine .of_gives (.readSome htake (fun m hm' => ?_) fun hp => ?_) rfl hwaits
    · refine Nat.le_trans ?_ (le_of_getD hge m hm')
      simp only [length_slice]
      omega
    · have := congrArg List.length hp
      simp only [length_slice, List.length_nil] at this
      omega

/-- From an empty buffer it goes to the socket, and keeps what was not asked for. -/
theorem readSome_direct {maxLen : Option Nat} (hm : maxLen ≠ some 0) {r : Reader}
    (hlen : ¬ r.readBuf.len > 0) :
    Feeds decode (.readSome maxLen hm) r (r.readSome maxLen).1 (r.readSome maxLen).2 := by
  have hs := Reader.stream_of_empty hlen
  have hroom := r.readBuf.room_enlargeTo (maxLen.getD 1)
  have hcap : 0 < (r.readBuf.enlargeTo (maxLen.getD 1)).buf.length := by
    have := getD_pos hm Nat.one_pos
    omega
  have hs' : ∀ input, (⟨r.readBuf.enlargeTo (maxLen.getD 1), input⟩ : Reader).stream = input.bytes :=
    fun input => Reader.stream_of_empty (by simpa using hlen)
  unfold Reader.readSome
  simp only [if_neg hlen]
  cases hd : r.input.directRead (r.readBuf.enlargeTo (maxLen.getD 1)).buf.length with
  | mk x input =>
    cases Input.reads_of hcap hd with
    | piece s hne hb ht =>
      have hm0 := getD_pos hm (Nat.pos_of_ne_zero hne)
      have hfront : ∀ n, n ≤ input.bytes.length →
          ¬ (ReadOp.readSome maxLen hm).Wants (r.rest.ahead n) := by
        intro n hn
        rw [ReadOp.Wants, Reader.length_ahead, hs, hb, List.length_append]
        omega
      simp only [if_neg hne]
      split
      · rename_i hlt
        refine .of_gives (.readSome ?_ (fun m hm' => ?_) fun hp => ?_) ht hfront
        · rw [hs, hb, Reader.stream, Buffer.waiting_refill _ (by omega), ← List.append_assoc,
            List.take_append_drop]
        · exact Nat.le_trans (List.length_take_le _ _) (getD_le hlt m hm')
        · have := congrArg List.length hp
          simp only [List.length_take, List.length_nil] at this
          omega
      · rename_i hge
        refine .of_gives (.readSome ?_ (le_of_getD hge) fun hp => ?_) ht hfront
        · rw [hs, hb, Reader.stream, Buffer.waiting_eq_nil rfl, List.nil_append]
        · exact hne (congrArg List.length hp)
    | ended hb ht =>
      refine .of_end ?_ ht.symm ht
      rw [hs, hb]
      show Gives decode (.readSome maxLen hm) [] (.value none)
        (⟨r.readBuf.enlargeTo (maxLen.getD 1), .eof⟩ : Reader).stream
      rw [hs']
      exact .readNone
    | broken m hb ht =>
      exact .of_lost (.raised_nothing m ((hs.trans hb).trans (hs' .eof).symm)) ht
        (Reader.ahead_nil (hs.trans hb))
    | expired hb ht =>
      exact .of_lost (.expired_nothing ((hs.trans hb).trans (hs' input).symm)) ht
        (Reader.ahead_nil (hs.trans hb))

theorem readSome_feeds {maxLen : Option Nat} (hm : maxLen ≠ some 0) (r : Reader) :
    Feeds decode (.readSome maxLen hm) r (r.readSome maxLen).1 (r.readSome maxLen).2 := by
  by_cases hlen : r.readBuf.len > 0
  · exact readSome_waiting hm hlen
  · exact readSome_direct hm hlen

/-- What is behind the first bytes that wait. -/
theorem Reader.stream_drop (r : Reader) {n : Nat} (h : n ≤ r.readBuf.len) :
    ({ r with readBuf := r.readBuf.drop n h } : Reader).stream = r.stream.drop n := by
  rw [Reader.stream, Buffer.waiting_drop, Reader.stream,
    List.drop_append_of_le_length (by rw [Buffer.length_waiting]; exact h)]

theorem Reader.slice_stream (r : Reader) {n : Nat} (h : n ≤ r.readBuf.len) :
    slice r.readBuf.buf r.readBuf.start n = r.stream.take n := by
  rw [r.stream_take h, List.take_left']
  have := r.readBuf.fits
  simp only [length_slice]
  omega

/-- What waits in front of an interruption. -/
theorem Reader.ahead_waiting {r r' : Reader} (hs : r'.stream = r.stream) :
    r.rest.ahead r'.input.bytes.length = r'.readBuf.waiting := by
  show r.stream.take (r.stream.length - r'.input.bytes.length) = _
  rw [← hs, Reader.stream, List.length_append, Nat.add_sub_cancel, List.take_left]

/-- A mark that waits is in front of every interruption. -/
theorem Reader.mark_ahead {sep : List UInt8} {i n : Nat} {r r' : Reader} (hs : r'.stream = r.stream)
    (hf : FirstAt sep r.stream i) (hl : i + sep.length ≤ r'.readBuf.len)
    (hn : n ≤ r'.input.bytes.length) : ¬ (ReadOp.readUntil sep).Wants (r.rest.ahead n) := by
  intro hno
  have hsum := r'.length_stream
  have hin : i + sep.length ≤ (r.rest.ahead n).length := by
    rw [Rest.length_ahead]
    show _ ≤ r.stream.length - n
    rw [← hs]
    omega
  refine hno i ((prefix_drop_append (r.stream.drop (r.stream.length - n)) hin).mp ?_)
  rw [show r.rest.ahead n = r.stream.take (r.stream.length - n) from rfl, List.take_append_drop]
  exact hf.here

theorem readUntil_feeds (sep : List UInt8) (r : Reader) :
    Feeds decode (.readUntil sep) r (r.readUntil decode sep).1 (r.readUntil decode sep).2 := by
  have hf := @Reader.findOpt_finds sep 0 r nofun
  unfold Reader.readUntil
  split
  · rename_i r' he
    rw [he] at hf
    cases hf with
    | absent hs ht hend hw hno =>
      have hlen : r'.readBuf.len = r.stream.length := by rw [← Buffer.length_waiting, hw]
      have hall : slice r'.readBuf.buf r'.readBuf.start r'.readBuf.len = r.stream := hw
      split
      · rename_i hpos
        have hne : r.stream ≠ [] := List.ne_nil_of_length_pos (by omega)
        rw [hall]
        cases hd : decode r.stream with
        | ok t =>
          refine .of_end ?_ ht hend
          show Gives decode (.readUntil sep) r.stream (.value (some t)) (Reader.stream _)
          rw [Reader.stream_drop, hs, List.drop_of_length_le (Nat.le_of_eq hlen.symm)]
          exact .readLast hno hne hd
        | error m =>
          refine .of_end ?_ ht hend
          show Gives decode (.readUntil sep) r.stream (.raised m) r'.stream
          rw [hs]
          exact .noText (Or.inr ⟨hno, hne, rfl⟩) hd
      · have hnil : r.stream = [] := List.length_eq_zero_iff.mp (by omega)
        refine .of_end ?_ ht hend
        show Gives decode (.readUntil sep) r.stream (.value none) r'.stream
        rw [hs, hnil]
        refine .atEnd fun hsep => hno 0 ?_
        rw [hsep]
        exact List.nil_prefix
  · rename_i i r' he
    rw [he] at hf
    cases hf with
    | found hs ht hfirst hl =>
      have hmark : ∀ k, k ≤ r'.input.bytes.length →
          ¬ (ReadOp.readUntil sep).Wants (r.rest.ahead k) := fun k => Reader.mark_ahead hs hfirst hl
      rw [r'.slice_stream (Nat.le_trans (Nat.le_add_right _ _) hl), hs]
      cases hd : decode (r.stream.take i) with
      | ok t =>
        refine .of_gives ?_ ht hmark
        show Gives decode (.readUntil sep) r.stream (.value (some t)) (Reader.stream _)
        rw [Reader.stream_drop, hs]
        exact .readUntil hfirst hd
      | error m =>
        refine .of_gives ?_ ht hmark
        show Gives decode (.readUntil sep) r.stream (.raised m) r'.stream
        rw [hs]
        exact .noText (Or.inl ⟨i, hfirst, rfl⟩) hd
  · rename_i m r' he
    rw [he] at hf
    cases hf with
    | raised _ hs ht hno =>
      exact .of_lost (.raised_nothing m hs.symm) ht ((Reader.ahead_waiting hs).symm ▸ hno)
  · rename_i r' he
    rw [he] at hf
    cases hf with
    | expired hs ht hno =>
      exact .of_lost (.expired_nothing hs.symm) ht ((Reader.ahead_waiting hs).symm ▸ hno)

theorem step_feeds (o : ReadOp) (r : Reader) :
    Feeds decode o r (r.step decode o).1 (r.step decode o).2 := by
  cases o with
  | read maxLen h => exact read_feeds h r
  | readExactly len => exact readExactly_feeds len r
  | drop len => exact drop_feeds len r
  | readSome maxLen h => exact readSome_feeds h r
  | readUntil sep => exact readUntil_feeds sep r

/-! ### Lengths -/

/-- The source counts in an `Int` of 32 bits. Lengths up to this one, a stream that is not longer and a
    buffer of at most twice as much keep its sums (`start + n`, `target_len`, `dropped + buf.len`,
    `searched + target_len`) below `2 ^ 31`. -/
def maxLength : Nat := 2 ^ 29

def ReadOp.InRange : ReadOp → Prop
  | .read maxLen _ => maxLen ≤ maxLength
  | .readExactly len => len ≤ maxLength
  | .drop len => len ≤ maxLength
  | .readSome maxLen _ => ∀ m ∈ maxLen, m ≤ maxLength
  | .readUntil sep => sep.length ≤ maxLength

structure Reader.InRange (r : Reader) : Prop where
  buf : r.readBuf.buf.length ≤ 2 * maxLength
  stream : r.stream.length ≤ maxLength

/-- Room that is made for a length in range, or for one byte more than the stream has. -/
theorem Buffer.enlargeTo_inRange {self : Buffer} (h : self.buf.length ≤ 2 * maxLength) {n : Nat}
    (hn : n ≤ maxLength + 1) :
    self.start + n < 2 ^ 31 ∧ targetLen n < 2 ^ 31 ∧ (self.enlargeTo n).buf.length ≤ 2 * maxLength := by
  have hfits := self.fits
  have htarget := targetLen_lt n
  have hlen := self.length_enlargeTo n
  simp only [maxLength] at *
  omega

theorem Gives.length_le {o : ReadOp} {l l' : List UInt8} {x : Await o.Result}
    (h : Gives decode o l x l') : l'.length ≤ l.length := by
  cases h with
  | read hs => simp [hs]
  | readExactly hs => simp [hs]
  | closed => exact Nat.zero_le _
  | drop hs => simp [hs]
  | dropped => exact Nat.zero_le _
  | readSome hs => simp [hs]
  | readNone => exact Nat.le_refl _
  | readUntil => simp
  | readLast => exact Nat.zero_le _
  | noText => exact Nat.le_refl _
  | atEnd => exact Nat.le_refl _

theorem Feeds.length_le {o : ReadOp} {r r' : Reader} {x : Await o.Result} (h : Feeds decode o r x r') :
    r'.stream.length ≤ r.stream.length := by
  rcases h.gives with hg | ⟨-, i, hl⟩
  · exact hg.length_le
  · obtain ⟨p, -, hs⟩ := hl.lost
    simp [hs]

theorem Reader.read_buf (maxLen : Nat) (r : Reader) :
    (r.read maxLen).2.readBuf.buf = r.readBuf.buf := by
  unfold Reader.read
  simp only
  split
  · exact r.readBuf.buf_drop (Nat.min_le_right _ _)
  · split <;> rfl

theorem Reader.readLoop_buf {len received : Nat} {dst : List UInt8} (r : Reader) :
    (r.readLoop len dst received).2.readBuf.buf = r.readBuf.buf := by
  fun_induction Reader.readLoop len dst received r with
  | case1 dst received r hlt new r' he =>
    have hb := r.read_buf (len - received)
    rw [he] at hb
    exact hb
  | case2 dst received r hlt new r' he hn ih =>
    have hb := r.read_buf (len - received)
    rw [he] at hb
    exact ih.trans hb
  | case3 dst received r hlt m r' he =>
    have hb := r.read_buf (len - received)
    rw [he] at hb
    exact hb
  | case4 dst received r hlt r' he =>
    have hb := r.read_buf (len - received)
    rw [he] at hb
    exact hb
  | case5 => rfl

theorem Reader.length_buf_dropLoop {len dropped : Nat} (r : Reader) (h : dropped - len ≤ r.readBuf.len) :
    (r.dropLoop len dropped h).2.readBuf.buf.length = r.readBuf.buf.length := by
  fun_induction Reader.dropLoop len dropped r h with
  | case1 => rfl
  | case2 dropped r h buf hlt s input hd hn ih => exact ih.trans (length_clip _ _ _)
  | case3 => rfl
  | case4 => rfl
  | case5 => rfl

theorem Reader.length_buf_ensureLoop {len : Nat} (r : Reader)
    (h : r.readBuf.start + len ≤ r.readBuf.buf.length) :
    (r.ensureLoop len h).2.readBuf.buf.length = r.readBuf.buf.length := by
  fun_induction Reader.ensureLoop len r h with
  | case1 => rfl
  | case2 r h hlt n input hd hn ih => exact ih.trans (length_clip _ _ _)
  | case3 => rfl
  | case4 => rfl
  | case5 => rfl

theorem Reader.length_buf_tryEnsure {len : Nat} {r r' : Reader} {x : Await Bool}
    (he : r.tryEnsure len = (x, r')) (h : r.readBuf.buf.length ≤ 2 * maxLength)
    (hl : len ≤ maxLength + 1) : r'.readBuf.buf.length ≤ 2 * maxLength := by
  rw [show r' = (r.tryEnsure len).2 by rw [he]]
  unfold Reader.tryEnsure
  split
  · exact h
  · rw [Reader.length_buf_ensureLoop]
    exact (Buffer.enlargeTo_inRange h hl).2.2

/-- The search asks for no more than one byte behind what has been received. -/
theorem Reader.length_buf_findOpt {target : List UInt8} {searched : Nat} {r : Reader} (h : r.InRange)
    (hs : searched + target.length ≤ maxLength + 1) :
    (r.findOpt target searched).2.readBuf.buf.length ≤ 2 * maxLength := by
  fun_induction Reader.findOpt target searched r with
  | case1 searched r r' he => exact Reader.length_buf_tryEnsure he h.buf hs
  | case2 searched r r' he i hf => exact Reader.length_buf_tryEnsure he h.buf hs
  | case3 searched r r' he hf ih =>
    cases Reader.ensures_of he with
    | enough hstream ht hl =>
      have hl : searched + target.length ≤ r'.readBuf.len := hl
      have hsum := r'.length_stream
      have hmax : r'.stream.length ≤ maxLength := hstream ▸ h.stream
      exact ih ⟨Reader.length_buf_tryEnsure he h.buf hs, hmax⟩ (by omega)
  | case4 searched r m r' he => exact Reader.length_buf_tryEnsure he h.buf hs
  | case5 searched r r' he => exact Reader.length_buf_tryEnsure he h.buf hs

theorem Reader.length_buf_readSome {maxLen : Option Nat} {r : Reader}
    (h : r.readBuf.buf.length ≤ 2 * maxLength) (hm : ∀ m ∈ maxLen, m ≤ maxLength) :
    (r.readSome maxLen).2.readBuf.buf.length ≤ 2 * maxLength := by
  have hroom : (r.readBuf.enlargeTo (maxLen.getD 1)).buf.length ≤ 2 * maxLength := by
    refine (Buffer.enlargeTo_inRange h ?_).2.2
    cases maxLen with
    | none => exact Nat.le_add_left 1 _
    | some m => exact Nat.le_succ_of_le (hm m rfl)
  unfold Reader.readSome
  simp only
  split
  · split <;> exact h
  · split
    · split
      · exact hroom
      · split
        · rw [Buffer.refill, length_clip]
          exact hroom
        · rw [Buffer.refill, length_clip]
          exact hroom
    · exact hroom
    · exact hroom

theorem Reader.length_buf_readUntil {sep : List UInt8} {r : Reader} (h : r.InRange)
    (hs : sep.length ≤ maxLength) :
    (r.readUntil decode sep).2.readBuf.buf.length ≤ 2 * maxLength := by
  have hb := @Reader.length_buf_findOpt sep 0 r h (by omega)
  unfold Reader.readUntil
  split
  · rename_i r' he
    rw [he] at hb
    split
    · split
      · rw [Buffer.buf_drop]
        exact hb
      · exact hb
    · exact hb
  · rename_i i r' he
    rw [he] at hb
    split
    · rw [Buffer.buf_drop]
      exact hb
    · exact hb
  · rename_i m r' he
    rw [he] at hb
    exact hb
  · rename_i r' he
    rw [he] at hb
    exact hb

/-- The lengths stay in range. -/
theorem step_inRange {o : ReadOp} (ho : o.InRange) {r : Reader} (h : r.InRange) :
    (r.step decode o).2.InRange := by
  refine ⟨?_, (step_feeds o r).length_le.trans h.stream⟩
  cases o with
  | read maxLen hm =>
    show (r.read maxLen).2.readBuf.buf.length ≤ _
    rw [r.read_buf]
    exact h.buf
  | readExactly len =>
    show (r.readLoop len _ 0).2.readBuf.buf.length ≤ _
    rw [r.readLoop_buf]
    exact h.buf
  | drop len =>
    show (r.drop len).2.readBuf.buf.length ≤ _
    unfold Reader.drop
    simp only
    split
    · rw [Buffer.buf_drop]
      exact h.buf
    · rw [Reader.length_buf_dropLoop]
      refine (Buffer.enlargeTo_inRange ?_ (Nat.le_add_left 1 _)).2.2
      rw [Buffer.buf_drop]
      exact h.buf
  | readSome maxLen hm => exact Reader.length_buf_readSome h.buf ho
  | readUntil sep => exact Reader.length_buf_readUntil h ho

/-- **A reader is a list of bytes**: whatever a program does with it, each operation takes the next
    bytes, and what is left is what the reader has still to read. The interruptions are those of the
    input, each in its place, and one loses no more bytes than the operation was asked for. The lengths
    stay in the range in which the source's sums do not wrap. -/
theorem reader_refines {α : Type} {p : Prog ReadOp (fun o => Await o.Result) α}
    (hp : Asks ReadOp.InRange p) {r : Reader} (h : r.InRange) :
    Exec (Takes decode) p r.rest (run (Reader.step decode) p r).1
        (run (Reader.step decode) p r).2.rest ∧
      (run (Reader.step decode) p r).2.InRange := by
  have hstep : ∀ (o : ReadOp) (r : Reader) s, o.InRange → r.rest = s ∧ r.InRange →
      ∃ s', Takes decode o s (r.step decode o).1 s' ∧
        (r.step decode o).2.rest = s' ∧ (r.step decode o).2.InRange := by
    intro o r s ho hr
    obtain ⟨rfl, hr⟩ := hr
    exact ⟨_, step_feeds o r, rfl, step_inRange ho hr⟩
  obtain ⟨s, hx, hs, hr⟩ := exec_of_run_asks hstep hp ⟨rfl, h⟩
  rw [hs]
  exact ⟨hx, hr⟩

/-- A line, then four bytes. -/
def lineAndFour : Prog ReadOp (fun o => Await o.Result) (Await (Option String) × Await (List UInt8)) :=
  .ask (.readUntil [13, 10]) fun line => .ask (.readExactly 4) fun four => .ret (line, four)

/-- One byte is in the buffer, and the timer runs out behind the first of the four. -/
def cutReader : Reader :=
  ⟨⟨[0, 79], 1, 1, by decide⟩, .segment [75, 13] (.segment [10, 1] (.timer (.segment [2, 3, 4] .eof)))⟩

theorem reader_refines_line :
    Exec (Takes decodeAscii) lineAndFour ⟨[79, 75, 13, 10, 1, 2, 3, 4], [⟨.expired, 3⟩]⟩
        (run (Reader.step decodeAscii) lineAndFour cutReader).1
        (run (Reader.step decodeAscii) lineAndFour cutReader).2.rest ∧
      (run (Reader.step decodeAscii) lineAndFour cutReader).2.InRange :=
  reader_refines (p := lineAndFour)
    (.ask (show 2 ≤ maxLength by decide) fun _ => .ask (show 4 ≤ maxLength by decide) fun _ => .ret _)
    (r := cutReader) ⟨show 2 ≤ 2 * maxLength by decide, show 8 ≤ maxLength by decide⟩

/-! ## 6. Readers that are not interrupted -/

namespace ReadOp

/-- What it gives does not depend on how the bytes arrive. -/
def Exact : ReadOp → Prop
  | .readExactly _ => True
  | .drop _ => True
  | .readUntil _ => True
  | _ => False

end ReadOp

variable (decode) in
/-- The operations on a list of bytes that is there as a whole. -/
def listStep : (o : ReadOp) → List UInt8 → Await o.Result × List UInt8
  | .read maxLen _, l => (.value (l.take maxLen), l.drop maxLen)
  | .readExactly len, l =>
    if len ≤ l.length then (.value (l.take len), l.drop len) else (.raised "ReaderClosed", [])
  | .drop len, l => (.value (min len l.length), l.drop len)
  | .readSome maxLen _, l =>
    if l = [] then (.value none, [])
    else (.value (some (l.take (maxLen.getD l.length))), l.drop (maxLen.getD l.length))
  | .readUntil sep, l =>
    match find sep l with
    | some i =>
      match decode (l.take i) with
      | .ok t => (.value (some t), l.drop (i + sep.length))
      | .error m => (.raised m, l)
    | none =>
      if l = [] then (.value none, [])
      else match decode l with
        | .ok t => (.value (some t), [])
        | .error m => (.raised m, l)

/-- A mark that is somewhere is found at its first place. -/
theorem find_eq_some {t l : List UInt8} {i : Nat} (h : FirstAt t l i) : find t l = some i := by
  cases hf : find t l with
  | none => exact absurd h.here (find_none hf i)
  | some j => rw [h.unique (find_firstAt hf)]

theorem find_eq_none {t l : List UInt8} (h : ∀ i, ¬ t <+: l.drop i) : find t l = none := by
  cases hf : find t l with
  | none => rfl
  | some i => exact absurd (find_firstAt hf).here (h i)

theorem Gives.eq_listStep {o : ReadOp} (he : o.Exact) {l l' : List UInt8} {x : Await o.Result}
    (h : Gives decode o l x l') : x = (listStep decode o l).1 ∧ l' = (listStep decode o l).2 := by
  cases h with
  | read => exact absurd he id
  | readSome => exact absurd he id
  | readNone => exact absurd he id
  | @readExactly len l p l' hs hl =>
    subst hs hl
    simp [listStep]
  | closed h =>
    simp [listStep, Nat.not_le_of_lt h]
  | @drop len l p l' hs hl =>
    subst hs hl
    simp [listStep]
  | dropped h =>
    simp [listStep, Nat.min_eq_right (Nat.le_of_lt h), List.drop_of_length_le (Nat.le_of_lt h)]
  | readUntil h ht => simp [listStep, find_eq_some h, ht]
  | readLast h hl ht => simp [listStep, find_eq_none h, hl, ht]
  | atEnd h =>
    have hno : find _ [] = none := find_eq_none fun i hp => h (List.prefix_nil.mp (by simpa using hp))
    simp [listStep, hno]
  | @noText sep l bad m h ht =>
    rcases h with ⟨i, hi, rfl⟩ | ⟨hno, hl, rfl⟩
    · simp [listStep, find_eq_some hi, ht]
    · simp [listStep, find_eq_none hno, hl, ht]

/-- **How the bytes were cut is not seen** by a program that asks for exact lengths and marks: where
    nothing interrupts the reader, it gets what it gets from the list of all that will arrive. The
    source's sums agree with these up to `maxLength` (`step_inRange`). -/
theorem reader_exact {α : Type} {p : Prog ReadOp (fun o => Await o.Result) α}
    (hp : Asks ReadOp.Exact p) {r : Reader} (hq : r.input.Quiet) :
    (run (Reader.step decode) p r).1 = (run (listStep decode) p r.stream).1 ∧
      (run (Reader.step decode) p r).2.stream = (run (listStep decode) p r.stream).2 := by
  have hstep : ∀ (o : ReadOp) (r : Reader) (l : List UInt8), o.Exact →
      (r.stream = l ∧ r.input.Quiet) → (r.step decode o).1 = (listStep decode o l).1 ∧
        ((r.step decode o).2.stream = (listStep decode o l).2 ∧ (r.step decode o).2.input.Quiet) := by
    intro o r l ho hr
    obtain ⟨rfl, hq⟩ := hr
    have hs := @step_feeds decode o r
    obtain ⟨hx, hl⟩ := (hs.gives.resolve_right fun hn => hn.1 hq).eq_listStep ho
    exact ⟨hx, hl, hs.quiet hq⟩
  have h := run_alike hstep hp ⟨rfl, hq⟩
  exact ⟨h.1, h.2.1⟩

end Refine

/-- A line, four bytes dropped, and the rest up to a mark that does not come. -/
def lineAndRest : Prog ReadOp (fun o => Await o.Result) (Await (Option String) × Await (Option String)) :=
  .ask (.readUntil [13, 10]) fun line => .ask (.drop 4) fun _ => .ask (.readUntil [13, 10]) fun rest =>
    .ret (line, rest)

/-- The mark is cut in two, and the reader has one byte in its buffer. -/
theorem reader_exact_line :
    (run (Reader.step decodeAscii) lineAndRest
        ⟨⟨[0, 79], 1, 1, by decide⟩, .segment [75, 13] (.segment [10, 1] (.segment [2, 3, 4, 90] .eof))⟩).1 =
      (run (listStep decodeAscii) lineAndRest [79, 75, 13, 10, 1, 2, 3, 4, 90]).1 ∧
    (run (Reader.step decodeAscii) lineAndRest
        ⟨⟨[0, 79], 1, 1, by decide⟩, .segment [75, 13] (.segment [10, 1] (.segment [2, 3, 4, 90] .eof))⟩).2.stream =
      (run (listStep decodeAscii) lineAndRest [79, 75, 13, 10, 1, 2, 3, 4, 90]).2 :=
  reader_exact (p := lineAndRest)
    (.ask trivial fun _ => .ask trivial fun _ => .ask trivial fun _ => .ret _)
    (r := ⟨⟨[0, 79], 1, 1, by decide⟩, .segment [75, 13] (.segment [10, 1] (.segment [2, 3, 4, 90] .eof))⟩)
    trivial

end MoonS7
