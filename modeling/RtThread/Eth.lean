import RtThread.Bytes
import RtThread.Segments

/-! The frames of the Ethernet driver (drv_eth.c): between the chain of pbufs of lwIP and the buffers
of the descriptors, which HAL_ETH_DMATxDescListInit and HAL_ETH_DMARxDescListInit have laid one behind
the other in Tx_Buff and Rx_Buff, each descriptor linked to the next and the last to the first. -/
namespace RtThread.Eth
open CBuffer Segments Bytes

def ethTxBufSize : Nat := 1524
def ethRxBufSize : Nat := 1524
def ethTxbufnb : Nat := 10
def ethRxbufnb : Nat := 4

structure Pbuf where
  len : Nat
  payload : Nat → Byte

def totLen (p : List Pbuf) : Nat := (p.map Pbuf.len).sum

def contents (p : List Pbuf) : List Byte := p.flatMap (fun q => slice q.payload 0 q.len)

inductive Ret where
  | errOk | errUse

/- Transmission. -/

/-- EthHandle.TxDesc, the OWN bits of the descriptors, Tx_Buff, and the flag TUS of DMASR. -/
structure Tx where
  txDesc : Nat
  own : Nat → Bool
  txBuff : Nat → Byte
  tus : Bool

/-- The variables of rt_stm32_eth_tx. -/
structure TxCursor where
  dmaTxDesc : Nat
  buffer : Nat
  bufferoffset : Nat
  framelength : Nat
  txBuff : Nat → Byte

def txPbuf (own : Nat → Bool) (payload : Nat → Byte) (byteslefttocopy payloadoffset : Nat) (c : TxCursor) :
    Bool × TxCursor :=
  if byteslefttocopy + c.bufferoffset > ethTxBufSize then
    let n := ethTxBufSize - c.bufferoffset
    let txBuff := copy c.txBuff (c.buffer + c.bufferoffset) payload payloadoffset n
    let dmaTxDesc := (c.dmaTxDesc + 1) % ethTxbufnb
    if own dmaTxDesc then (false, { c with txBuff := txBuff, dmaTxDesc := dmaTxDesc })
    else
      txPbuf own payload (byteslefttocopy - n) (payloadoffset + n)
        ⟨dmaTxDesc, dmaTxDesc * ethTxBufSize, 0, c.framelength + n, txBuff⟩
  else
    (true, { c with
      txBuff := copy c.txBuff (c.buffer + c.bufferoffset) payload payloadoffset byteslefttocopy
      bufferoffset := c.bufferoffset + byteslefttocopy
      framelength := c.framelength + byteslefttocopy })
termination_by byteslefttocopy + c.bufferoffset
decreasing_by
  simp only [ethTxBufSize] at *
  omega

def txChain (own : Nat → Bool) : List Pbuf → TxCursor → Bool × TxCursor
  | [], c => (true, c)
  | q :: next, c =>
    if own c.dmaTxDesc then (false, c)
    else
      let r := txPbuf own q.payload q.len 0 c
      if r.1 then txChain own next r.2 else r

/-- With the call of HAL_ETH_TransmitFrame, of which the result is only printed. -/
def rtStm32EthTx (halEthTransmitFrame : Tx → Nat → Tx) (s : Tx) (p : List Pbuf) :
    Ret × Option (Tx × Nat) × Tx :=
  let r := txChain s.own p ⟨s.txDesc, s.txDesc * ethTxBufSize, 0, 0, s.txBuff⟩
  let s := { s with txBuff := r.2.txBuff }
  if r.1 then (.errOk, some (s, r.2.framelength), { halEthTransmitFrame s r.2.framelength with tus := false })
  else (.errUse, none, { s with tus := false })

/- Reception. -/

structure FrameInfos where
  fsRxDesc : Nat
  segCount : Nat
  length : Nat
  buffer : Nat

/-- EthHandle.RxFrameInfos, the OWN bits of the descriptors, Rx_Buff, and the flag RBUS of DMASR. -/
structure Rx where
  infos : FrameInfos
  own : Nat → Bool
  rxBuff : Nat → Byte
  rbus : Bool

structure RxCursor where
  dmarxdesc : Nat
  buffer : Nat
  bufferoffset : Nat

def rxPbuf (rxBuff : Nat → Byte) (byteslefttocopy payloadoffset : Nat) (payload : Nat → Byte) (c : RxCursor) :
    (Nat → Byte) × RxCursor :=
  if byteslefttocopy + c.bufferoffset > ethRxBufSize then
    let n := ethRxBufSize - c.bufferoffset
    let dmarxdesc := (c.dmarxdesc + 1) % ethRxbufnb
    rxPbuf rxBuff (byteslefttocopy - n) (payloadoffset + n)
      (copy payload payloadoffset rxBuff (c.buffer + c.bufferoffset) n)
      ⟨dmarxdesc, dmarxdesc * ethRxBufSize, 0⟩
  else
    (copy payload payloadoffset rxBuff (c.buffer + c.bufferoffset) byteslefttocopy,
      { c with bufferoffset := c.bufferoffset + byteslefttocopy })
termination_by byteslefttocopy + c.bufferoffset
decreasing_by
  simp only [ethRxBufSize] at *
  omega

def rxChain (rxBuff : Nat → Byte) : List Pbuf → RxCursor → List Pbuf
  | [], _ => []
  | q :: next, c =>
    let r := rxPbuf rxBuff q.len 0 q.payload c
    { q with payload := r.1 } :: rxChain rxBuff next r.2

def release : Nat → Nat → (Nat → Bool) → Nat → Bool
  | 0, _, own => own
  | n + 1, dmarxdesc, own => release n ((dmarxdesc + 1) % ethRxbufnb) (Function.update own dmarxdesc true)

/-- HAL_ETH_GetReceivedFrame_IT gives no state where it does not return HAL_OK. -/
def rtStm32EthRx (halEthGetReceivedFrame : Rx → Option Rx) (pbufAlloc : Nat → Option (List Pbuf)) (s : Rx) :
    Option (List Pbuf) × Rx :=
  match halEthGetReceivedFrame s with
  | none => (none, s)
  | some s =>
    let len := s.infos.length % 2 ^ 16
    let p := if len > 0 then pbufAlloc len else none
    let p := p.map (fun p => rxChain s.rxBuff p ⟨s.infos.fsRxDesc, s.infos.buffer, 0⟩)
    let own := release s.infos.segCount s.infos.fsRxDesc s.own
    (p, { s with own := own, infos := { s.infos with segCount := 0 }, rbus := false })

/-- The Tx buffers in the order of the ring, from the descriptor `first` on. -/
abbrev txStream (first : Nat) (txBuff : Nat → Byte) : Nat → Byte := stream ethTxBufSize ethTxbufnb first txBuff

abbrev rxStream (first : Nat) (rxBuff : Nat → Byte) : Nat → Byte := stream ethRxBufSize ethRxbufnb first rxBuff

/-- HAL_ETH_TransmitFrame is called once, with the total length, when the Tx buffers hold the payloads. -/
structure Transmits (halEthTransmitFrame : Tx → Nat → Tx) (s : Tx) (p : List Pbuf) : Prop where
  ret : (rtStm32EthTx halEthTransmitFrame s p).1 = .errOk
  call : ∃ s', (rtStm32EthTx halEthTransmitFrame s p).2.1 = some (s', totLen p) ∧
    s'.txDesc = s.txDesc ∧ s'.own = s.own ∧
    slice (txStream s.txDesc s'.txBuff) 0 (totLen p) = contents p ∧
    ∀ q, totLen p ≤ q → q < ethTxbufnb * ethTxBufSize →
      txStream s.txDesc s'.txBuff q = txStream s.txDesc s.txBuff q

def FrameInfos.descs (infos : FrameInfos) : List Nat := Ring.window id ethRxbufnb infos.fsRxDesc infos.segCount

/-- What HAL_ETH_GetReceivedFrame_IT has found: the frame in consecutive buffers, which belong to the CPU. -/
structure Received (s : Rx) (frame : List Byte) : Prop where
  first : s.infos.fsRxDesc < ethRxbufnb
  buffer : s.infos.buffer = s.infos.fsRxDesc * ethRxBufSize
  length : s.infos.length = frame.length
  segs : s.infos.segCount ≤ ethRxbufnb
  fits : frame.length ≤ s.infos.segCount * ethRxBufSize
  cpu : ∀ d ∈ s.infos.descs, s.own d = false
  data : slice (rxStream s.infos.fsRxDesc s.rxBuff) 0 frame.length = frame

/-- The pbufs hold the frame, unless there were none for it, and its descriptors are the DMA's again. -/
structure Receives (halEthGetReceivedFrame : Rx → Option Rx) (pbufAlloc : Nat → Option (List Pbuf)) (s s' : Rx)
    (frame : List Byte) : Prop where
  filled : ∀ p, (rtStm32EthRx halEthGetReceivedFrame pbufAlloc s).1 = some p → contents p = frame
  dropped : (rtStm32EthRx halEthGetReceivedFrame pbufAlloc s).1 = none →
    frame = [] ∨ pbufAlloc frame.length = none
  distinct : s'.infos.descs.Nodup ∧ s'.infos.descs.length = s'.infos.segCount
  returned : ∀ d, (rtStm32EthRx halEthGetReceivedFrame pbufAlloc s).2.own d = true ↔
    s'.own d = true ∨ d ∈ s'.infos.descs
  cleared : (rtStm32EthRx halEthGetReceivedFrame pbufAlloc s).2.infos.segCount = 0

variable {own : Nat → Bool} {payload buff : Nat → Byte} {left off first p n : Nat} {c : TxCursor} {r : RxCursor}

theorem at_desc {size count desc offset : Nat} (here : At size count first desc offset p) : desc < count := by
  obtain ⟨j, some_, rfl, -⟩ := here
  exact Nat.mod_lt _ (by omega)

/- Transmission. -/

/-- The cursor stands at the position `p` of the stream. -/
structure TxAt (first p : Nat) (c : TxCursor) : Prop where
  at_ : At ethTxBufSize ethTxbufnb first c.dmaTxDesc c.bufferoffset p
  buffer : c.buffer = c.dmaTxDesc * ethTxBufSize

/-- One pbuf goes into the stream at `p`, however many buffers it takes. -/
structure TxDone (first p left off : Nat) (payload : Nat → Byte) (c : TxCursor) (r : Bool × TxCursor) : Prop where
  ok : r.1 = true
  moved : TxAt first (p + left) r.2
  framelength : r.2.framelength = c.framelength + left
  written : ∀ q < ethTxbufnb * ethTxBufSize,
    txStream first r.2.txBuff q = copy (txStream first c.txBuff) p payload off left q

theorem TxAt.next (here : TxAt first p c) (more : left + c.bufferoffset > ethTxBufSize)
    (room : p + left ≤ ethTxbufnb * ethTxBufSize) (length : Nat) (txBuff : Nat → Byte) :
    TxAt first (p + (ethTxBufSize - c.bufferoffset))
      ⟨(c.dmaTxDesc + 1) % ethTxbufnb, (c.dmaTxDesc + 1) % ethTxbufnb * ethTxBufSize, 0, length, txBuff⟩ := by
  obtain ⟨j, some_, buffer, offset, pos⟩ := here.at_
  have end_ : c.bufferoffset + (ethTxBufSize - c.bufferoffset) = ethTxBufSize := Nat.add_sub_cancel' offset
  have full := here.at_.advance (Nat.le_of_eq end_)
  rw [end_] at full
  exact ⟨full.next (by omega), rfl⟩

theorem TxAt.write (here : TxAt first p c) (fits : c.bufferoffset + n ≤ ethTxBufSize) (payload : Nat → Byte)
    (off : Nat) {q : Nat} (whole : q < ethTxbufnb * ethTxBufSize) :
    txStream first (copy c.txBuff (c.buffer + c.bufferoffset) payload off n) q =
      copy (txStream first c.txBuff) p payload off n q := by
  rw [here.buffer]
  exact here.at_.write fits _ _ _ whole

theorem TxAt.offset_le (here : TxAt first p c) : c.bufferoffset ≤ ethTxBufSize := by
  obtain ⟨j, some_, buffer, offset, pos⟩ := here.at_
  exact offset

theorem txPbuf_done (free : ∀ d < ethTxbufnb, own d = false) (here : TxAt first p c)
    (room : p + left ≤ ethTxbufnb * ethTxBufSize) :
    TxDone first p left off payload c (txPbuf own payload left off c) := by
  fun_induction txPbuf own payload left off c generalizing p with
  | case1 left off c more n txBuff dmaTxDesc =>
    rename_i owned
    have cpu : own dmaTxDesc = false := free _ (Nat.mod_lt _ (by decide))
    exact absurd owned (by simp [cpu])
  | case2 left off c more n txBuff dmaTxDesc =>
    rename_i ih
    have offset := here.offset_le
    have fits : c.bufferoffset + n = ethTxBufSize := Nat.add_sub_cancel' offset
    have all : n + (left - n) = left := by omega
    have rest := ih (here.next more room (c.framelength + n) txBuff) (by omega)
    refine ⟨rest.ok, ?_, ?_, fun q whole => ?_⟩
    · have moved := rest.moved
      rw [Nat.add_assoc, all] at moved
      exact moved
    · rw [rest.framelength, Nat.add_assoc, all]
    · rw [rest.written q whole, copy_congr (here.write (Nat.le_of_eq fits) payload off whole), copy_copy, all]
  | case3 left off c whole =>
    exact ⟨rfl, ⟨here.at_.advance (by omega), here.buffer⟩, rfl, fun q inside => here.write (by omega) _ _ inside⟩

theorem txChain_done (free : ∀ d < ethTxbufnb, own d = false) (chain : List Pbuf) (here : TxAt first p c)
    (room : p + totLen chain ≤ ethTxbufnb * ethTxBufSize) :
    (txChain own chain c).1 = true ∧
    (txChain own chain c).2.framelength = c.framelength + totLen chain ∧
    slice (txStream first (txChain own chain c).2.txBuff) p (totLen chain) = contents chain ∧
    ∀ q < ethTxbufnb * ethTxBufSize, q < p ∨ p + totLen chain ≤ q →
      txStream first (txChain own chain c).2.txBuff q = txStream first c.txBuff q := by
  induction chain generalizing p c with
  | nil => exact ⟨rfl, rfl, rfl, fun _ _ _ => rfl⟩
  | cons q next ih =>
    have total : totLen (q :: next) = q.len + totLen next := by simp [totLen]
    have cpu : own c.dmaTxDesc = false := free _ (at_desc here.at_)
    rw [total] at room
    have one : TxDone first p q.len 0 q.payload c (txPbuf own q.payload q.len 0 c) :=
      txPbuf_done free here (by omega)
    obtain ⟨ok, length, data, others⟩ := ih one.moved (by omega)
    have step : txChain own (q :: next) c = txChain own next (txPbuf own q.payload q.len 0 c).2 := by
      simp [txChain, cpu, one.ok]
    rw [step, total]
    refine ⟨ok, ?_, ?_, fun k whole apart => ?_⟩
    · rw [length, one.framelength, Nat.add_assoc]
    · have here_ : slice (txStream first (txChain own next (txPbuf own q.payload q.len 0 c).2).2.txBuff) p q.len =
          slice q.payload 0 q.len := by
        rw [← slice_copy (txStream first c.txBuff) q.payload p 0 q.len]
        apply slice_congr
        intro k low high
        rw [others k (by omega) (by omega), one.written k (by omega)]
      rw [slice_append, here_, data]
      rfl
    · rw [others k whole (by omega), one.written k whole, copy, if_neg (by omega)]

theorem tx_transmits (transmit : Tx → Nat → Tx) {s : Tx} {p : List Pbuf} (first : s.txDesc < ethTxbufnb)
    (free : ∀ d < ethTxbufnb, s.own d = false) (total : totLen p ≤ ethTxbufnb * ethTxBufSize) :
    Transmits transmit s p := by
  have start : TxAt s.txDesc 0 ⟨s.txDesc, s.txDesc * ethTxBufSize, 0, 0, s.txBuff⟩ := ⟨at_start first, rfl⟩
  obtain ⟨ok, length, data, others⟩ := txChain_done free p start (by omega)
  simp only [Nat.zero_add] at length others
  have call : (rtStm32EthTx transmit s p).2.1 =
      some ({ s with txBuff := (txChain s.own p ⟨s.txDesc, s.txDesc * ethTxBufSize, 0, 0, s.txBuff⟩).2.txBuff },
        totLen p) := by
    simp only [rtStm32EthTx, if_pos ok, length]
  exact ⟨by simp only [rtStm32EthTx, if_pos ok],
    ⟨_, call, rfl, rfl, data, fun q behind whole => others q whole (.inr behind)⟩⟩

/- Reception. -/

structure RxAt (first p : Nat) (r : RxCursor) : Prop where
  at_ : At ethRxBufSize ethRxbufnb first r.dmarxdesc r.bufferoffset p
  buffer : r.buffer = r.dmarxdesc * ethRxBufSize

theorem RxAt.next (here : RxAt first p r) (more : left + r.bufferoffset > ethRxBufSize)
    (room : p + left ≤ ethRxbufnb * ethRxBufSize) :
    RxAt first (p + (ethRxBufSize - r.bufferoffset))
      ⟨(r.dmarxdesc + 1) % ethRxbufnb, (r.dmarxdesc + 1) % ethRxbufnb * ethRxBufSize, 0⟩ := by
  obtain ⟨j, some_, buffer, offset, pos⟩ := here.at_
  have end_ : r.bufferoffset + (ethRxBufSize - r.bufferoffset) = ethRxBufSize := Nat.add_sub_cancel' offset
  have full := here.at_.advance (Nat.le_of_eq end_)
  rw [end_] at full
  exact ⟨full.next (by omega), rfl⟩

theorem RxAt.read (here : RxAt first p r) (fits : r.bufferoffset + n ≤ ethRxBufSize) (payload : Nat → Byte) :
    copy payload off buff (r.buffer + r.bufferoffset) n = copy payload off (rxStream first buff) p n := by
  rw [here.buffer]
  exact here.at_.read fits _ _ _

theorem rxPbuf_done (here : RxAt first p r) (room : p + left ≤ ethRxbufnb * ethRxBufSize) :
    (rxPbuf buff left off payload r).1 = copy payload off (rxStream first buff) p left ∧
    RxAt first (p + left) (rxPbuf buff left off payload r).2 := by
  fun_induction rxPbuf buff left off payload r generalizing p with
  | case1 left off payload r more n dmarxdesc =>
    rename_i ih
    obtain ⟨j, some_, buffer, offset, pos⟩ := here.at_
    have fits : r.bufferoffset + n = ethRxBufSize := Nat.add_sub_cancel' offset
    have all : n + (left - n) = left := by omega
    obtain ⟨filled, moved⟩ := ih (here.next more room) (by omega)
    rw [Nat.add_assoc, all] at moved
    refine ⟨?_, moved⟩
    rw [filled, here.read (Nat.le_of_eq fits), copy_copy, all]
  | case2 left off payload r whole =>
    exact ⟨here.read (by omega) payload, here.at_.advance (by omega), here.buffer⟩

theorem rxChain_done (chain : List Pbuf) (here : RxAt first p r)
    (room : p + totLen chain ≤ ethRxbufnb * ethRxBufSize) :
    contents (rxChain buff chain r) = slice (rxStream first buff) p (totLen chain) := by
  induction chain generalizing p r with
  | nil => rfl
  | cons q next ih =>
    have total : totLen (q :: next) = q.len + totLen next := by simp [totLen]
    rw [total] at room ⊢
    obtain ⟨filled, moved⟩ := @rxPbuf_done q.payload buff q.len 0 first p r here (by omega)
    rw [rxChain, contents, List.flatMap_cons, filled, slice_copy, slice_append]
    congr 1
    exact ih moved (by omega)

theorem release_own (n d : Nat) (own : Nat → Bool) (inside : d < ethRxbufnb) (x : Nat) :
    release n d own x = true ↔ own x = true ∨ x ∈ Ring.window id ethRxbufnb d n := by
  induction n generalizing d own with
  | zero => simp [release]
  | succ n ih =>
    have behind : (d + 1) % ethRxbufnb < ethRxbufnb := Nat.mod_lt _ (by decide)
    rw [release, ih _ _ behind, Ring.window_pop _ _ _ inside, List.mem_cons]
    by_cases same : x = d
    · simp [same]
    · rw [Function.update_of_ne same]
      simp [same]

theorem window_nodup {size : Nat} (few : n ≤ size) : (Ring.window id size first n).Nodup := by
  rw [Ring.window, List.nodup_iff_pairwise_ne, List.pairwise_map]
  exact List.pairwise_lt_range.imp_of_mem fun _ inside before =>
    Ring.slot_ne _ _ before (Nat.lt_of_lt_of_le (List.mem_range.mp inside) few)

theorem rx_receives {get : Rx → Option Rx} {alloc : Nat → Option (List Pbuf)} {s s' : Rx} {frame : List Byte}
    (got : get s = some s') (received : Received s' frame)
    (allocates : ∀ n chain, alloc n = some chain → totLen chain = n) : Receives get alloc s s' frame := by
  obtain ⟨first, buffer, length, segs, fits, cpu, data⟩ := received
  have most : s'.infos.segCount * ethRxBufSize ≤ ethRxbufnb * ethRxBufSize := Nat.mul_le_mul_right _ segs
  have len : s'.infos.length % 2 ^ 16 = frame.length := by
    rw [length]
    simp only [ethRxbufnb, ethRxBufSize] at most fits
    omega
  have result : rtStm32EthRx get alloc s =
      ((if frame.length > 0 then alloc frame.length else none).map
        (fun p => rxChain s'.rxBuff p ⟨s'.infos.fsRxDesc, s'.infos.buffer, 0⟩),
      { s' with
        own := release s'.infos.segCount s'.infos.fsRxDesc s'.own
        infos := { s'.infos with segCount := 0 }
        rbus := false }) := by
    simp only [rtStm32EthRx, got, len]
  constructor
  · intro p filled
    rw [result] at filled
    obtain ⟨chain, allocated, rfl⟩ := Option.map_eq_some_iff.mp filled
    split at allocated
    · have total := allocates _ _ allocated
      have start : RxAt s'.infos.fsRxDesc 0 ⟨s'.infos.fsRxDesc, s'.infos.buffer, 0⟩ := ⟨at_start first, buffer⟩
      rw [rxChain_done chain start (by omega), total, data]
    · cases allocated
  · intro none
    rw [result, Option.map_eq_none_iff] at none
    split at none
    · exact .inr none
    · exact .inl (List.eq_nil_of_length_eq_zero (by omega))
  · exact ⟨window_nodup segs, Ring.length_window _ _ _ _⟩
  · intro d
    rw [result]
    exact release_own _ _ _ first d
  · rw [result]

theorem frames_preserved :
    (∀ (transmit : Tx → Nat → Tx) (s : Tx) (p : List Pbuf), s.txDesc < ethTxbufnb →
      (∀ d < ethTxbufnb, s.own d = false) → totLen p ≤ ethTxbufnb * ethTxBufSize → Transmits transmit s p) ∧
    (∀ (get : Rx → Option Rx) (alloc : Nat → Option (List Pbuf)) (s s' : Rx) (frame : List Byte),
      get s = some s' → Received s' frame → (∀ n chain, alloc n = some chain → totLen chain = n) →
      Receives get alloc s s' frame) :=
  ⟨fun transmit _ _ first free total => tx_transmits transmit first free total,
    fun _ _ _ _ _ got received allocates => rx_receives got received allocates⟩

def counting (i : Nat) : Byte := BitVec.ofNat 8 i

/-- The frame is in the last and the first Rx buffer. -/
def wrappedRx : Rx := ⟨⟨3, 2, 2000, 3 * ethRxBufSize⟩, fun _ => false, counting, false⟩

theorem frames_preserved_wrapped :
    Transmits (fun s _ => s) ⟨9, fun _ => false, fun _ => 0, false⟩
      [⟨1000, counting⟩, ⟨0, counting⟩, ⟨1000, counting⟩] ∧
    Receives some (fun n => some [⟨n, fun _ => 0⟩]) wrappedRx wrappedRx (slice (rxStream 3 counting) 0 2000) := by
  refine ⟨frames_preserved.1 _ _ _ (by decide) (fun _ _ => rfl) (by decide),
    frames_preserved.2 _ _ _ _ _ rfl ?_ ?_⟩
  · refine ⟨by decide, rfl, by simp [wrappedRx], by decide, by simp [wrappedRx, ethRxBufSize], fun _ _ => rfl, ?_⟩
    rw [length_slice]
    rfl
  · rintro n chain allocated
    cases allocated
    simp [totLen]

end RtThread.Eth
