import MailServer.Store.Assert

/-!
# Milter frames

`Command::serialize` (`smtp/src/inbound/milter/protocol.rs`) writes a command behind its length, and
`Receiver::read_frame` (`smtp/src/inbound/milter/receiver.rs`) takes the frames of the answers out
of what the reads return.

Principal results: `lengthRight_iff`; `readAll_frames` — the frames do not depend on how their bytes
are cut into reads.
-/

namespace MailServer.Milter

open List MailServer.Store

variable {limit : ℕ}

/-! ## Commands -/

inductive IpAddr where
  | v4 (octets : UInt32)
  | v6 (segments : BitVec 128)

/-- `Macros`: names and values. -/
structure Macros where
  cmdcode : UInt8
  macros : List (Bytes × Bytes)

structure Options where
  version : UInt32
  actions : UInt32
  protocol : UInt32

inductive Command where
  | abort
  | body (value : Bytes)
  | endOfBody
  | data
  | connect (hostname : Bytes) (port : UInt16) (address : IpAddr)
  | macros (macros : Macros)
  | header (name value : Bytes)
  | endOfHeader
  | helo (hostname : Bytes)
  | mailFrom (sender : Bytes) (args : Option (List Bytes))
  | rcpt (recipient : Bytes) (args : Option (List Bytes))
  | optionNegotiation (opt : Options)
  | quit
  | quitNewConnection

/-- `len() as u32`; sums of `u32` wrap around. -/
def len32 (bytes : Bytes) : UInt32 := .ofNat bytes.length

def build (command : Char) (len : UInt32) : Bytes := beU32 (len + 1) ++ [command.toUInt8]

/-- `MailFrom` and `Rcpt`: the bytes of the arguments are counted, and one NUL for all of them. -/
def buildEnvelope (command : Char) (address : Bytes) (args : Option (List Bytes)) : Bytes :=
  build command (len32 address + 1 +
      args.elim 0 fun args => args.foldl (fun acc arg => acc + len32 arg) 0 + 1) ++
    (address ++ [0] ++ args.elim [] fun args => args.flatMap (· ++ [0]))

section

variable (text : IpAddr → Bytes)

/-- `Command::serialize`, with the `SMFIC_*` letters written out; `text` is `IpAddr::to_string`. -/
def Command.serialize : Command → Bytes
  | .abort => build 'A' 0
  | .body value => build 'B' (len32 value) ++ value
  | .endOfBody => build 'E' 0
  | .data => build 'T' 0
  | .connect hostname port address =>
    let family : Char := match address with
      | .v4 _ => '4'
      | .v6 _ => '6'
    build 'C' (len32 hostname + 1 + 1 + 2 + len32 (text address) + 1) ++
      (hostname ++ [0] ++ [family.toUInt8] ++ beU16 port ++ text address ++ [0])
  | .macros defs =>
    build 'D' (defs.macros.foldl (fun acc m => acc + len32 m.1 + 1 + len32 m.2 + 1) 1) ++
      (defs.cmdcode :: defs.macros.flatMap fun m => m.1 ++ [0] ++ m.2 ++ [0])
  | .header name value =>
    build 'L' (len32 name + 1 + len32 value + 1) ++ (name ++ [0] ++ value ++ [0])
  | .endOfHeader => build 'N' 0
  | .helo hostname => build 'H' (len32 hostname + 1) ++ (hostname ++ [0])
  | .mailFrom sender args => buildEnvelope 'M' sender args
  | .rcpt recipient args => buildEnvelope 'R' recipient args
  | .optionNegotiation opt =>
    build 'O' (3 * 4) ++ (beU32 opt.version ++ beU32 opt.actions ++ beU32 opt.protocol)
  | .quit => build 'Q' 0
  | .quitNewConnection => build 'K' 0

/-- The list of arguments that a command carries. -/
def Command.args : Command → Option (List Bytes)
  | .mailFrom _ args | .rcpt _ args => args
  | _ => none

/-- The bytes of a command and of its strings, each with its NUL. -/
def Command.size : Command → ℕ
  | .body value => value.length + 1
  | .connect hostname _ address => hostname.length + (text address).length + 6
  | .macros defs => (defs.macros.map fun m => m.1.length + m.2.length + 2).sum + 2
  | .header name value => name.length + value.length + 3
  | .helo hostname => hostname.length + 2
  | .mailFrom address args | .rcpt address args =>
    address.length + ((args.getD []).map fun arg => arg.length + 1).sum + 2
  | .optionNegotiation _ => 13
  | _ => 1

/-- The four bytes in front are the number of bytes behind them. -/
def LengthRight (c : Command) : Prop :=
  beNat ((c.serialize text).take 4) = ((c.serialize text).drop 4).length

instance (c : Command) : Decidable (LengthRight text c) := inferInstanceAs (Decidable (_ = _))

theorem lengthRight_of_build {c : Command} {command : Char} {len : UInt32} {bytes : Bytes} {n : ℕ}
    (h : c.serialize text = build command len ++ bytes) (hlen : (len + 1).toNat = n % 2 ^ 32) :
    LengthRight text c ↔ n % 2 ^ 32 = bytes.length + 1 := by
  have htake : (c.serialize text).take 4 = beU32 (len + 1) := by
    rw [h]
    rfl
  have hdrop : (c.serialize text).drop 4 = command.toUInt8 :: bytes := by
    rw [h]
    rfl
  unfold LengthRight
  rw [htake, hdrop, beNat_beU32, hlen, length_cons]

theorem foldl_u32 {α : Type} {f} {g : α → ℕ}
    (hf : ∀ acc a, (f acc a).toNat = (acc.toNat + g a) % 2 ^ 32) (acc : UInt32) (l : List α) :
    (l.foldl f acc).toNat = (acc.toNat + (l.map g).sum) % 2 ^ 32 := by
  induction l generalizing acc with
  | nil => simp
  | cons a l ih =>
    rw [foldl_cons, ih, hf, map_cons, sum_cons]
    omega

theorem sum_args (args : List Bytes) :
    (args.map fun arg => arg.length + 1).sum = (args.map length).sum + args.length := by
  induction args with
  | nil => rfl
  | cons arg args ih =>
    simp only [map_cons, sum_cons, length_cons]
    omega

theorem length_macros (macros : List (Bytes × Bytes)) :
    (macros.flatMap fun m => m.1 ++ [0] ++ m.2 ++ [0]).length =
      (macros.map fun m => m.1.length + m.2.length + 2).sum := by
  simp [Nat.add_assoc]

theorem lengthRight_envelope {c : Command} {command : Char} {address : Bytes}
    {args} (h : c.serialize text = buildEnvelope command address args) :
    LengthRight text c ↔
      address.length + ((args.getD []).map fun arg => arg.length + 1).sum + 2 < 2 ^ 32 ∧
        ∀ list, args = some list → list.length = 1 := by
  cases args with
  | none =>
    rw [lengthRight_of_build text h (n := address.length + 2) (by simp [len32])]
    simp
  | some list =>
    have hlen :
        (len32 address + 1 + (list.foldl (fun acc arg => acc + len32 arg) 0 + 1) + 1).toNat =
        (address.length + (list.map length).sum + 3) % 2 ^ 32 := by
      have hfold := foldl_u32 (f := fun acc arg => acc + len32 arg) (g := length)
        (by simp [len32]) 0 list
      generalize list.foldl (fun acc arg => acc + len32 arg) 0 = total at hfold ⊢
      simp [len32, hfold]
      omega
    have hbytes : (address ++ [0] ++ list.flatMap (· ++ [0])).length =
        address.length + 1 + ((list.map length).sum + list.length) := by
      simp only [length_append, length_flatMap, length_cons, length_nil, sum_args]
    rw [lengthRight_of_build text h hlen]
    dsimp only [Option.elim_some, Option.getD_some]
    rw [sum_args]
    simp only [Option.some.injEq, forall_eq']
    omega

/-- **The length in front of a command** is the number of the bytes behind it exactly when that
number fits, and a list of arguments holds one. -/
theorem lengthRight_iff (c : Command) :
    LengthRight text c ↔ c.size text < 2 ^ 32 ∧ ∀ args, c.args = some args → args.length = 1 := by
  have hplain : ∀ {command : Char} {len : UInt32} {bytes : Bytes}, c.args = none →
      c.serialize text = build command len ++ bytes →
      (len + 1).toNat = c.size text % 2 ^ 32 → c.size text = bytes.length + 1 →
      (LengthRight text c ↔ c.size text < 2 ^ 32 ∧
        ∀ args, c.args = some args → args.length = 1) := by
    intro command len bytes hargs h hlen hbytes
    rw [lengthRight_of_build text h hlen, hargs, ← hbytes]
    simp
  cases c with
  | mailFrom | rcpt => exact lengthRight_envelope text rfl
  | body value => exact hplain rfl rfl (by simp [len32, Command.size]) rfl
  | connect hostname port address =>
    refine hplain rfl rfl ?_ ?_
    · simp [len32, Command.size]
      omega
    · simp [beU16, Command.size]
      omega
  | macros defs =>
    refine hplain rfl rfl ?_ ?_
    · have hfold := foldl_u32
        (f := fun acc (m : Bytes × Bytes) => acc + len32 m.1 + 1 + len32 m.2 + 1)
        (g := fun m => m.1.length + m.2.length + 2) (fun acc m => by simp [len32]; omega) 1
        defs.macros
      simp [hfold, Command.size]
      omega
    · rw [length_cons, length_macros]
      rfl
  | header name value =>
    refine hplain rfl rfl ?_ ?_
    · simp [len32, Command.size]
      omega
    · simp [Command.size]
      omega
  | helo hostname =>
    refine hplain rfl rfl ?_ (by simp [Command.size])
    simp [len32, Command.size]
  | optionNegotiation opt => exact hplain rfl rfl rfl rfl
  | _ => exact hplain rfl (append_nil _).symm rfl rfl

end

/-! ## The receiver -/

/-- The length bytes read so far, or the frame behind a length. -/
inductive State where
  | len (buf : Bytes)
  | frame (buf : Bytes) (frameLen : ℕ)

structure Receiver where
  packetPos : ℕ
  state : State
  maxFrameLen : ℕ

inductive FrameResult where
  | frame (bytes : Bytes)
  | incomplete
  | tooLarge (length : ℕ)

def Receiver.withMaxFrameLen (limit : ℕ) : Receiver := ⟨0, .len [], limit⟩

/-- The loop over the length bytes that are missing; `false` at the end of the packet. -/
def readLen (packet : Bytes) : ℕ → Bytes → ℕ → Bytes × ℕ × Bool
  | 0, buf, pos => (buf, pos, true)
  | missing + 1, buf, pos =>
    match packet[pos]? with
    | some byte => readLen packet missing (buf ++ [byte]) (pos + 1)
    | none => (buf, pos, false)

def Receiver.readFrame (r : Receiver) (packet : Bytes) : FrameResult × Receiver :=
  if packet = [] then (.incomplete, r)
  else
    match r.state with
    | .len buf =>
      match readLen packet (4 - buf.length) buf r.packetPos with
      | (buf, _, false) => (.incomplete, { r with state := .len buf, packetPos := 0 })
      | (buf, pos, true) =>
        let length := beNat buf
        if length ≤ r.maxFrameLen then
          if pos + length ≤ packet.length then
            (.frame ((packet.drop pos).take length),
              { r with state := .len [], packetPos := pos + length })
          else (.incomplete, { r with state := .frame (packet.drop pos) length, packetPos := 0 })
        else (.tooLarge length, { r with state := .len buf, packetPos := pos })
    | .frame buf frameLen =>
      let pending := frameLen - buf.length
      if r.packetPos + pending ≤ packet.length then
        (.frame (buf ++ (packet.drop r.packetPos).take pending),
          { r with state := .len [], packetPos := r.packetPos + pending })
      else
        (.incomplete, { r with state := .frame (buf ++ packet.drop r.packetPos) frameLen,
                               packetPos := 0 })

/-- The calls of `read_frame` for what one read has returned; a frame that is too large ends the
connection. -/
def readPacket (packet : Bytes) : ℕ → Receiver → List FrameResult × Option Receiver
  | 0, r => ([], some r)
  | calls + 1, r =>
    match r.readFrame packet with
    | (.incomplete, r) => ([], some r)
    | (.tooLarge length, _) => ([.tooLarge length], none)
    | (.frame bytes, r) =>
      ((readPacket packet calls r).1.cons (.frame bytes), (readPacket packet calls r).2)

/-- What is received from one read after another. -/
def readAll : Receiver → List Bytes → List FrameResult
  | _, [] => []
  | r, packet :: packets =>
    match readPacket packet (packet.length + 1) r with
    | (results, none) => results
    | (results, some r) => results ++ readAll r packets

/-! ## The stream -/

/-- A frame behind its length. -/
def encodeFrame (frame : Bytes) : Bytes := beU32 (.ofNat frame.length) ++ frame

/-- The first frame of a stream, and what is behind it. -/
def nextFrame (limit : ℕ) (stream : Bytes) : FrameResult × Bytes :=
  let length := beNat (stream.take 4)
  if stream.length < 4 then (.incomplete, stream)
  else if limit < length then (.tooLarge length, stream)
  else if stream.length < 4 + length then (.incomplete, stream)
  else (.frame ((stream.drop 4).take length), stream.drop (4 + length))

/-- What there is to receive from a stream: its frames, up to one that is too large. -/
inductive Frames (limit : ℕ) : Bytes → List FrameResult → Prop
  | incomplete {stream : Bytes} : (nextFrame limit stream).1 = .incomplete → Frames limit stream []
  | tooLarge {stream : Bytes} {length : ℕ} : (nextFrame limit stream).1 = .tooLarge length →
      Frames limit stream [.tooLarge length]
  | frame {stream rest bytes : Bytes} {results : List FrameResult} :
      nextFrame limit stream = (.frame bytes, rest) → Frames limit rest results →
      Frames limit stream (.frame bytes :: results)

theorem nextFrame_frame {limit length : ℕ} {stream : Bytes} (h : beNat (stream.take 4) = length)
    (hlimit : length ≤ limit) (hbody : 4 + length ≤ stream.length) :
    nextFrame limit stream =
      (.frame ((stream.drop 4).take length), stream.drop (4 + length)) := by
  unfold nextFrame
  rw [h, if_neg (by omega), if_neg (by omega), if_neg (by omega)]

theorem nextFrame_tooLarge {limit length : ℕ} {stream : Bytes}
    (h : beNat (stream.take 4) = length) (hlimit : limit < length) (hlen : 4 ≤ stream.length) :
    nextFrame limit stream = (.tooLarge length, stream) := by
  unfold nextFrame
  rw [h, if_neg (by omega), if_pos hlimit]

theorem nextFrame_append {stream rest : Bytes} {result : FrameResult}
    (h : nextFrame limit stream = (result, rest)) (hdone : result ≠ .incomplete) (more : Bytes) :
    nextFrame limit (stream ++ more) = (result, rest ++ more) := by
  unfold nextFrame at h ⊢
  dsimp only at h ⊢
  split_ifs at h with hshort hlarge hbody
  · cases h
    cases hdone rfl
  · cases h
    rw [take_append_of_le_length (by omega), if_neg (by simp; omega), if_pos hlarge]
  · cases h
    cases hdone rfl
  · cases h
    rw [take_append_of_le_length (by omega), if_neg (by simp; omega), if_neg hlarge,
      if_neg (by simp; omega), drop_append_of_le_length (by omega),
      drop_append_of_le_length (by omega),
      take_append_of_le_length (by rw [length_drop]; omega)]

/-- The bytes that were read before the packet. -/
def State.carried : State → Bytes
  | .len buf => buf
  | .frame buf frameLen => beU32 (.ofNat frameLen) ++ buf

/-- What is left to read. -/
def Receiver.pending (r : Receiver) (packet : Bytes) : Bytes :=
  r.state.carried ++ packet.drop r.packetPos

/-- Neither a length nor a frame is complete between two reads. -/
def State.Unfinished (limit : ℕ) : State → Prop
  | .len buf => buf.length < 4
  | .frame buf frameLen => buf.length < frameLen ∧ frameLen ≤ limit ∧ frameLen < 2 ^ 32

theorem beNat_ofNat {n : ℕ} (h : n < 2 ^ 32) : beNat (beU32 (.ofNat n)) = n := by
  rw [beNat_beU32, UInt32.toNat_ofNat', Nat.mod_eq_of_lt h]

theorem State.Unfinished.next {state : State} (h : state.Unfinished limit) :
    (nextFrame limit state.carried).1 = .incomplete := by
  unfold nextFrame
  cases state with
  | len buf => exact congrArg Prod.fst (if_pos h)
  | frame buf frameLen =>
    obtain ⟨hbuf, hlimit, hlen⟩ := h
    have htake : (State.carried (.frame buf frameLen)).take 4 = beU32 (.ofNat frameLen) := rfl
    rw [htake, beNat_ofNat hlen, if_neg (by simp [State.carried, beU32]), if_neg (by omega),
      if_pos (by simp [State.carried, beU32]; omega)]

theorem readLen_eq (packet : Bytes) (missing : ℕ) (buf : Bytes) (pos : ℕ) :
    readLen packet missing buf pos =
      (buf ++ (packet.drop pos).take missing, pos + min missing (packet.drop pos).length,
        decide (missing ≤ (packet.drop pos).length)) := by
  induction missing generalizing buf pos with
  | zero => simp [readLen]
  | succ missing ih =>
    unfold readLen
    cases hbyte : packet[pos]? with
    | none =>
      have hdrop : packet.drop pos = [] := drop_eq_nil_of_le (getElem?_eq_none_iff.1 hbyte)
      simp [hdrop]
    | some byte =>
      obtain ⟨hlt, rfl⟩ := List.getElem?_eq_some_iff.1 hbyte
      rw [drop_eq_getElem_cons hlt]
      dsimp only
      rw [ih, take_succ_cons, length_cons, Nat.add_min_add_right, append_assoc, singleton_append,
        Nat.add_right_comm, Nat.add_assoc]
      simp only [Nat.add_le_add_iff_right]

/-- **One call of `read_frame`** reads the next frame of what is left, and keeps the rest of a
packet that does not hold one. -/
theorem readFrame_spec {r : Receiver} {packet : Bytes}
    (hlimit : r.maxFrameLen = limit) (hstate : r.state.Unfinished limit) (hpacket : packet ≠ [])
    (hpos : r.packetPos ≤ packet.length) :
    ∃ result state pos, r.readFrame packet = (result, ⟨pos, state, limit⟩) ∧
      match result with
      | .incomplete =>
        state.Unfinished limit ∧ pos = 0 ∧ state.carried = r.pending packet
      | .tooLarge length => (nextFrame limit (r.pending packet)).1 = .tooLarge length
      | .frame bytes =>
        nextFrame limit (r.pending packet) = (.frame bytes, packet.drop pos) ∧ state = .len [] ∧
          r.packetPos < pos ∧ pos ≤ packet.length := by
  obtain ⟨start, state, limit'⟩ := r
  obtain rfl : limit' = limit := hlimit
  unfold Receiver.readFrame Receiver.pending
  rw [if_neg hpacket]
  cases state with
  | len buf =>
    replace hstate : buf.length < 4 := hstate
    dsimp only [State.carried]
    rw [readLen_eq, length_drop]
    by_cases hroom : 4 - buf.length ≤ packet.length - start
    · rw [decide_eq_true hroom, Nat.min_eq_left hroom]
      have htake : (buf ++ packet.drop start).take 4 =
          buf ++ (packet.drop start).take (4 - buf.length) := by
        rw [take_append, take_of_length_le (by omega)]
      have hdrop : (buf ++ packet.drop start).drop 4 =
          packet.drop (start + (4 - buf.length)) := by
        rw [drop_append, drop_of_length_le (by omega), nil_append, drop_drop]
      have hstream : (buf ++ packet.drop start).length = buf.length + (packet.length - start) := by
        rw [length_append, length_drop]
      have hbytes : ((buf ++ packet.drop start).take 4).length = 4 := by
        rw [length_take, hstream]
        omega
      have hlt := beNat_lt ((buf ++ packet.drop start).take 4)
      have hkept := beU32_beNat hbytes
      rw [← htake]
      rw [hbytes] at hlt
      dsimp only
      generalize hlength : beNat ((buf ++ packet.drop start).take 4) = length at hlt hkept ⊢
      split_ifs with hlarge hbody
      · refine ⟨_, _, _, rfl, ?_, rfl, by omega, hbody⟩
        rw [nextFrame_frame hlength hlarge (by omega), ← drop_drop, hdrop, drop_drop]
      · refine ⟨_, _, _, rfl, ⟨?_, hlarge, hlt⟩, rfl, ?_⟩
        · rw [length_drop]
          omega
        · change beU32 (.ofNat length) ++ packet.drop _ = _
          rw [hkept, ← hdrop, take_append_drop]
      · refine ⟨_, _, _, rfl, ?_⟩
        rw [nextFrame_tooLarge hlength (by omega) (by omega)]
    · rw [decide_eq_false hroom, take_of_length_le (by rw [length_drop]; omega)]
      refine ⟨_, _, _, rfl, ?_, rfl, rfl⟩
      change (buf ++ packet.drop start).length < 4
      rw [length_append, length_drop]
      omega
  | frame buf frameLen =>
    obtain ⟨hbuf, hlen, hlt⟩ := hstate
    dsimp only [State.carried]
    have hdrop : (beU32 (.ofNat frameLen) ++ buf ++ packet.drop start).drop 4 =
        buf ++ packet.drop start := rfl
    have hlength : beNat ((beU32 (.ofNat frameLen) ++ buf ++ packet.drop start).take 4) =
      frameLen :=
      beNat_ofNat hlt
    have hstream : (beU32 (.ofNat frameLen) ++ buf ++ packet.drop start).length =
        4 + (buf.length + (packet.length - start)) := by
      simp [beU32]
      omega
    split_ifs with hbody
    · refine ⟨_, _, _, rfl, ?_, rfl, by omega, hbody⟩
      rw [nextFrame_frame hlength hlen (by omega), ← drop_drop, hdrop, take_append,
        take_of_length_le hbuf.le, drop_append, drop_of_length_le hbuf.le, nil_append, drop_drop]
    · refine ⟨_, _, _, rfl, ⟨?_, hlen, hlt⟩, rfl, (append_assoc _ _ _).symm⟩
      rw [length_append, length_drop]
      omega

theorem readPacket_spec {packet : Bytes} (hpacket : packet ≠ []) {calls : ℕ}
    {r : Receiver} (hlimit : r.maxFrameLen = limit) (hstate : r.state.Unfinished limit)
    (hpos : r.packetPos ≤ packet.length) (hcalls : packet.length < r.packetPos + calls)
    (more : Bytes) :
    (∃ results, readPacket packet calls r = (results, none) ∧
      Frames limit (r.pending packet ++ more) results) ∨
    ∃ results state, readPacket packet calls r = (results, some ⟨0, state, limit⟩) ∧
      state.Unfinished limit ∧ ∀ others, Frames limit (state.carried ++ more) others →
        Frames limit (r.pending packet ++ more) (results ++ others) := by
  induction calls generalizing r with
  | zero => omega
  | succ calls ih =>
    obtain ⟨result, state, pos, hread, hresult⟩ := readFrame_spec hlimit hstate hpacket hpos
    unfold readPacket
    rw [hread]
    cases result with
    | incomplete =>
      obtain ⟨hunfinished, rfl, hcarried⟩ := hresult
      refine .inr ⟨[], state, rfl, hunfinished, fun others h => ?_⟩
      rwa [← hcarried]
    | tooLarge length =>
      have hnext : nextFrame limit (r.pending packet) =
          (.tooLarge length, (nextFrame limit (r.pending packet)).2) := Prod.ext hresult rfl
      refine .inl ⟨_, rfl, .tooLarge ?_⟩
      rw [nextFrame_append hnext (by simp)]
    | frame bytes =>
      obtain ⟨hnext, rfl, hlt, hle⟩ := hresult
      replace hnext := nextFrame_append hnext (by simp) more
      rcases ih (r := ⟨pos, .len [], limit⟩) rfl (show 0 < 4 by decide) hle (by dsimp only; omega)
        with ⟨results, hrest, hframes⟩ | ⟨results, state, hrest, hunfinished, hframes⟩
      · exact .inl ⟨.frame bytes :: results, by simp [hrest], .frame hnext hframes⟩
      · exact .inr ⟨.frame bytes :: results, state, by simp [hrest], hunfinished,
          fun others h => .frame hnext (hframes others h)⟩

theorem readAll_frames {state : State} (hstate : state.Unfinished limit)
    {packets : List Bytes} (hpackets : ∀ packet ∈ packets, packet ≠ []) :
    Frames limit (state.carried ++ packets.flatten) (readAll ⟨0, state, limit⟩ packets) := by
  induction packets generalizing state with
  | nil =>
    rw [flatten_nil, append_nil]
    exact .incomplete hstate.next
  | cons packet packets ih =>
    obtain ⟨hpacket, hpackets⟩ := forall_mem_cons.1 hpackets
    rw [flatten_cons, ← append_assoc]
    unfold readAll
    rcases readPacket_spec hpacket (r := ⟨0, state, limit⟩) rfl hstate (Nat.zero_le _)
        (by omega : packet.length < 0 + (packet.length + 1)) packets.flatten with
      ⟨results, hread, hframes⟩ | ⟨results, state', hread, hunfinished, hframes⟩
    · rw [hread]
      exact hframes
    · rw [hread]
      exact hframes _ (ih hunfinished hpackets)

theorem Frames.tooLarge_lt {limit length : ℕ} {stream : Bytes} {results}
    (h : Frames limit stream results) (hmem : .tooLarge length ∈ results) : limit < length := by
  induction h with
  | incomplete => simp at hmem
  | tooLarge hnext =>
    unfold nextFrame at hnext
    dsimp only at hnext
    split_ifs at hnext with hshort hlarge hbody
    cases hnext
    simp_all
  | frame _ _ ih => exact ih (by simpa using hmem)

theorem Frames.eq_of_encoded {fs : List Bytes} {results}
    (hfs : ∀ f ∈ fs, f.length ≤ limit ∧ f.length < 2 ^ 32)
    (h : Frames limit (fs.flatMap encodeFrame) results) : results = fs.map .frame := by
  induction fs generalizing results with
  | nil =>
    cases h with
    | incomplete => rfl
    | tooLarge hnext | frame hnext _ => cases hnext
  | cons f fs ih =>
    obtain ⟨⟨hlimit, hlt⟩, hfs⟩ := forall_mem_cons.1 hfs
    have hnext : nextFrame limit ((f :: fs).flatMap encodeFrame) =
        (.frame f, fs.flatMap encodeFrame) := by
      have hlength : beNat (((f :: fs).flatMap encodeFrame).take 4) = f.length := beNat_ofNat hlt
      have hdrop : ((f :: fs).flatMap encodeFrame).drop 4 = f ++ fs.flatMap encodeFrame := rfl
      rw [nextFrame_frame hlength hlimit (by simp [encodeFrame, beU32]; omega), ← drop_drop, hdrop,
        take_left, drop_left]
    cases h with
    | incomplete h | tooLarge h => cases (congrArg Prod.fst hnext).symm.trans h
    | frame h hrest =>
      rw [hnext] at h
      cases h
      rw [map_cons, ih hfs hrest]

/-- **Milter frames.** The length in front of a command is right exactly when it fits into 32 bits
and a list of arguments holds one; what is received from any cut of a stream are its frames, up to
one that is too long. -/
theorem milter_frames_iff (text : IpAddr → Bytes) (limit : ℕ) (packets : List Bytes)
    (hpackets : ∀ packet ∈ packets, packet ≠ []) :
    (∀ c, LengthRight text c ↔
      c.size text < 2 ^ 32 ∧ ∀ args, c.args = some args → args.length = 1) ∧
    Frames limit packets.flatten (readAll (.withMaxFrameLen limit) packets) ∧
    (∀ fs : List Bytes, (∀ f ∈ fs, f.length ≤ limit ∧ f.length < 2 ^ 32) →
      packets.flatten = fs.flatMap encodeFrame →
      readAll (.withMaxFrameLen limit) packets = fs.map .frame) ∧
    ∀ length, .tooLarge length ∈ readAll (.withMaxFrameLen limit) packets → limit < length := by
  have hframes : Frames limit packets.flatten (readAll (.withMaxFrameLen limit) packets) :=
    readAll_frames (show State.Unfinished limit (.len []) from Nat.zero_lt_succ 3) hpackets
  refine ⟨lengthRight_iff text, hframes, fun fs hfs hflatten => ?_,
    fun length => hframes.tooLarge_lt⟩
  exact Frames.eq_of_encoded hfs (hflatten ▸ hframes)

theorem milter_frames_twoReads :
    readAll (.withMaxFrameLen 10) [[0, 0], [0, 1, 97]] = [.frame [97]] :=
  (milter_frames_iff (fun _ => []) 10 [[0, 0], [0, 1, 97]] (by decide)).2.2.1 [[97]] (by decide) rfl

/-- Two arguments have a NUL each, and one is counted. -/
theorem two_args_counted_short :
    ¬ ∀ c, LengthRight (fun _ => []) c := by
  intro h
  exact absurd (h (.mailFrom [97] (some [[98], [99]]))) (by decide)

end MailServer.Milter
