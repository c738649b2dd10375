import Mathlib.Data.List.Forall2
import OpenDDS.Source.RtpsSampleHeader

/-!
# The fragments of an RTPS message cover its payload

A message that is too long is split, then its tail, and so on. The pieces are DATA_FRAG
submessages. The numbers of fragments in their headers are kept in 16 bits, so this holds of
all pieces only where neither the head nor the rest of the first split has more fragments than
that.
-/
namespace OpenDDS.Guarantees.RtpsFragments
open Library Library.Chain Source Source.RtpsSampleHeader
open Source.HeaderSplit (sizeSub splitPayload_spec)

structure DataMessage (m : Message) (dataOffset : Nat) (flags : UInt8) : Prop where
  found : findData m.header 0 = .ok (some dataOffset)
  kind : octet m.header dataOffset = .ok DATA
  order : octet m.header (dataOffset + 1) = .ok flags
  payload : flags &&& (flagD ||| flagKInData) ≠ 0
  whole : dataOffset + 24 ≤ m.header.length

def fragments (n : Nat) : Nat := (n + fragSize - 1) / fragSize

/-- The submessages have the fragments from `lo` to before `hi`, in order. -/
def Tiles : Nat → List DataFragSubmessage → Nat → Prop
  | lo, [], hi => lo = hi
  | lo, rtps :: rest, hi =>
    rtps.fragmentStartingNum = lo ∧ 0 < rtps.fragmentsInSubmessage ∧
      Tiles (lo + rtps.fragmentsInSubmessage) rest hi

def Reads (m : Message) (rtps : DataFragSubmessage) : Prop := dataFragSm m = .ok (some rtps)

def DataFragSubmessage.HasLast (rtps : DataFragSubmessage) (lastFrag : Nat) : Prop :=
  rtps.fragmentStartingNum ≤ lastFrag ∧
    lastFrag < rtps.fragmentStartingNum + rtps.fragmentsInSubmessage

/-- The pieces of a payload, from the fragment `start` to the fragment `lastFrag` of a sample of
`n` bytes. -/
structure Covers (n lastFrag start : Nat) (payload : List UInt8)
    (heads : List (Message × Nat × Nat)) (last : Message) : Prop where
  submessages : ∃ all : List DataFragSubmessage,
    List.Forall₂ Reads (heads.map Prod.fst ++ [last]) all ∧ Tiles start all (lastFrag + 1) ∧
    ∀ rtps ∈ all, rtps.sampleSize = n ∧ rtps.fragmentSize = fragSize ∧
      (rtps.moreFragments = false ↔ DataFragSubmessage.HasLast rtps lastFrag)
  payload : (heads.map Prod.fst ++ [last]).flatMap (fun m => contents m.cont) = payload
  /-- What `split` returned: the last fragment of the head and of the tail. -/
  ranges : ∀ head first second, (head, first, second) ∈ heads →
    second = lastFrag ∧ ∃ rtps, Reads head rtps ∧
      first + 1 = rtps.fragmentStartingNum + rtps.fragmentsInSubmessage

/-- `split` of the message and then of each tail that is still too long cuts the payload into
its fragments. -/
def Fragmented (m : Message) (size : Nat) : Prop :=
  let n := Serializer.totalLength m.cont
  ∃ rounds heads last, fragment size rounds m = some (heads, last) ∧
    Covers n (fragments n) 1 (contents m.cont) heads last

section

theorem byteOrder_newFlags (kind flags : UInt8) :
    byteOrder (newFlags kind flags) = byteOrder flags := by
  have hcleared : (flags &&& ~~~(flagKInData ||| flagKInFrag)) &&& flagE = flags &&& flagE := by
    rw [UInt8.and_assoc]
    rfl
  have hset : ((flags &&& ~~~(flagKInData ||| flagKInFrag)) ||| flagKInFrag) &&& flagE =
      flags &&& flagE := by
    rw [← hcleared]
    exact (UInt8.toBitVec_inj.mp BitVec.and_or_distrib_right).trans UInt8.or_zero
  simp only [byteOrder, newFlags]
  split
  · split
    · rw [hcleared]
    · rw [hset]
  · rfl

theorem byteOrder_clearQ (flags : UInt8) : byteOrder (flags &&& ~~~flagQ) = byteOrder flags := by
  unfold byteOrder
  rw [UInt8.and_assoc]
  rfl

/-- A message whose submessage with data `split` finds. -/
structure Ready (m : Message) (sm : Submessage) : Prop where
  found : findData m.header 0 = .ok (some sm.dataOffset)
  submessage : submessage m = .ok (some sm)
  ids : sm.ids.length = 16
  start : 0 < sm.startingFrag
  sampleSize : sm.sampleSize < 2 ^ 32
  whole : sm.dataOffset + (if sm.kind = DATA then 24 else 36) ≤ m.header.length

theorem findData_dataFrag {rd : List UInt8} (ids : List UInt8) {dataOffset : Nat}
    (hfound : findData rd 0 = .ok (some dataOffset)) (order : ByteOrder) (flags : UInt8)
    (startingFrag frags sampleSize : Nat) (back : List UInt8) :
    (rd.take dataOffset).length = dataOffset ∧
    findData (rd.take dataOffset ++ dataFrag order flags ids startingFrag frags sampleSize ++ back)
      0 = .ok (some (rd.take dataOffset).length) := by
  obtain ⟨-, kind, -, hkind, -⟩ := findData_spec hfound
  obtain ⟨hlt, -⟩ := List.getElem?_eq_some_iff.mp (octet_eq_ok.mp hkind)
  have hlength : (rd.take dataOffset).length = dataOffset := by
    rw [List.length_take]
    omega
  obtain ⟨hnew, hflags⟩ :=
    octet_dataFrag (rd.take dataOffset) back order flags ids startingFrag frags sampleSize
  rw [hlength] at hnew hflags
  rw [hlength]
  refine ⟨rfl, findData_of_take hfound ?_ hnew hflags⟩
  rw [List.append_assoc, List.take_left' hlength]

/-- The pieces that `split` makes: the first `frags` fragments, and the others. -/
structure Cut (m : Message) (sm : Submessage) (frags : Nat) (halves : Halves) : Prop where
  first : halves.range.1 = number (sm.startingFrag + frags - 1)
  second : halves.range.2 = number ((sm.startingFrag + frags +
    fragments ((contents m.cont).length - frags * fragSize) % 2 ^ 16 + 2 ^ 32 - 1) % 2 ^ 32)
  head : Reads halves.head ⟨sm.startingFrag, frags, fragSize, sm.sampleSize⟩
  payloadHead : contents halves.head.cont = (contents m.cont).take (frags * fragSize)
  tail : Reads halves.tail ⟨sm.startingFrag + frags,
    fragments ((contents m.cont).length - frags * fragSize) % 2 ^ 16, fragSize, sm.sampleSize⟩
  payloadTail : contents halves.tail.cont = (contents m.cont).drop (frags * fragSize)
  ready : ∃ flags, Ready halves.tail
    ⟨sm.dataOffset, DATA_FRAG, flags, sm.startingFrag + frags, sm.sampleSize, sm.ids⟩
  length : halves.tail.header.length = sm.dataOffset + 36

variable {m : Message} {sm : Submessage} {size sz frags : Nat}

theorem split_of_at {halves : Halves} (hfound : submessage m = .ok (some sm))
    (hat : splitAt m size sm = .ok halves) : split m size = .ok (some halves) := by
  simp only [split, bind, Except.bind, hfound, hat]
  rfl

variable (frags) in
theorem split_cut (hr : Ready m sm) (hsize : size < 2 ^ 64)
    (hsz : sz = if sm.kind = DATA then m.header.length + 12 else m.header.length)
    (hroom : sz ≤ size)
    (hfrags : frags = min (size - sz) (contents m.cont).length / fragSize % 2 ^ 16)
    (hrest : frags * fragSize < (contents m.cont).length)
    (hlast : sm.startingFrag + frags < 2 ^ 32) :
    ∃ halves, split m size = .ok (some halves) ∧ Cut m sm frags halves := by
  obtain ⟨payloadHead, payloadTail, hsplit, hhead, htail, -⟩ := splitPayload_spec hrest
  have hmax : sizeSub size sz = size - sz := by
    unfold sizeSub
    omega
  have hcount : frags < 2 ^ 16 := by
    rw [hfrags]
    exact Nat.mod_lt _ (by decide)
  have hpos := hr.start
  have hfirst : (sm.startingFrag + frags + 2 ^ 32 - 1) % 2 ^ 32 = sm.startingFrag + frags - 1 := by
    omega
  have htailFrags := Nat.mod_lt
    (fragments ((contents m.cont).length - frags * fragSize)) (show 2 ^ 16 > 0 by decide)
  let order := byteOrder sm.flags
  let flags := newFlags sm.kind sm.flags
  let tailFrags := fragments ((contents m.cont).length - frags * fragSize) % 2 ^ 16
  let front := m.header.take sm.dataOffset
  have horder : byteOrder flags = order := byteOrder_newFlags sm.kind sm.flags
  have htailOrder : byteOrder (flags &&& ~~~flagQ) = order :=
    (byteOrder_clearQ flags).trans horder
  let iqos := if sm.flags &&& flagQ = 0 then []
    else m.header.drop (sm.dataOffset + 8 + dataFragOctetsToIqos - if sm.kind = DATA then 12 else 0)
  have hat : splitAt m size sm = .ok
      { range := (number ((sm.startingFrag + frags + 2 ^ 32 - 1) % 2 ^ 32),
          number ((sm.startingFrag + frags + tailFrags + 2 ^ 32 - 1) % 2 ^ 32))
        head := ⟨front ++ dataFrag order flags sm.ids sm.startingFrag frags sm.sampleSize ++ iqos,
          payloadHead⟩
        tail := ⟨front ++ dataFrag order (flags &&& ~~~flagQ) sm.ids (sm.startingFrag + frags)
          tailFrags sm.sampleSize, payloadTail⟩ } := by
    unfold splitAt
    simp only [← hsz, hmax, Serializer.totalLength, ← hfrags, hsplit]
    rfl
  obtain ⟨hlength, hheadScan⟩ := findData_dataFrag sm.ids hr.found order flags
    sm.startingFrag frags sm.sampleSize iqos
  obtain ⟨-, htailScan⟩ := findData_dataFrag sm.ids hr.found order (flags &&& ~~~flagQ)
    (sm.startingFrag + frags) tailFrags sm.sampleSize []
  have hheadRead := dataFragSm_dataFrag front iqos payloadHead horder hr.ids (by omega) hcount
    hr.sampleSize hheadScan
  have htailRead := dataFragSm_dataFrag front [] payloadTail htailOrder hr.ids hlast htailFrags
    hr.sampleSize htailScan
  have htailFound := submessage_dataFrag front [] payloadTail htailOrder hr.ids hlast htailFrags
    hr.sampleSize htailScan
  rw [hlength] at htailScan htailFound
  rw [List.append_nil] at htailRead htailFound htailScan
  have htailLength : (front ++ dataFrag order (flags &&& ~~~flagQ) sm.ids
      (sm.startingFrag + frags) tailFrags sm.sampleSize).length = sm.dataOffset + 36 := by
    rw [List.length_append, hlength, length_dataFrag order _ hr.ids]
  have hends : sm.dataOffset + (if DATA_FRAG = DATA then 24 else 36) ≤
      (front ++ dataFrag order (flags &&& ~~~flagQ) sm.ids (sm.startingFrag + frags) tailFrags
        sm.sampleSize).length := by
    rw [htailLength, if_neg (by decide)]
  refine ⟨_, split_of_at hr.submessage hat, ?_⟩
  constructor
  case first => exact congrArg number hfirst
  case second => rfl
  case head => exact hheadRead
  case payloadHead => exact hhead
  case tail => exact htailRead
  case payloadTail => exact htail
  case ready => exact
    ⟨_, htailScan, htailFound, hr.ids, Nat.add_pos_left hpos frags, hr.sampleSize, hends⟩
  case length => exact htailLength

end

section

theorem moreFragments_iff {start frags n : Nat} (hstart : 0 < start) (hfrags : 0 < frags)
    (hle : start + frags ≤ fragments n + 1) (hlast : fragments n ≤ 131070) :
    (DataFragSubmessage.moreFragments ⟨start, frags, fragSize, n⟩ = false ↔
      DataFragSubmessage.HasLast ⟨start, frags, fragSize, n⟩ (fragments n)) := by
  have hlastFrag : (start + 2 ^ 32 - 1 + frags) % 2 ^ 32 = start + frags - 1 := by omega
  unfold fragments fragSize at *
  have hbytes : (start + frags - 1) * 1024 % 2 ^ 32 = (start + frags - 1) * 1024 := by omega
  simp only [DataFragSubmessage.moreFragments, hlastFrag, hbytes, decide_eq_false_iff_not,
    DataFragSubmessage.HasLast]
  omega

/-- The rest of a sample of `n` bytes, with no more fragments than its header can tell. -/
structure Rest (size n : Nat) (m : Message) (sm : Submessage) : Prop where
  ready : Ready m sm
  kind : sm.kind = DATA_FRAG
  sampleSize : sm.sampleSize = n
  read : Reads m ⟨sm.startingFrag, fragments n + 1 - sm.startingFrag, fragSize, n⟩
  payload : (contents m.cont).length + (sm.startingFrag - 1) * fragSize = n
  nonempty : 0 < (contents m.cont).length
  count : fragments n < sm.startingFrag + 65535
  room : m.header.length + fragSize ≤ size

variable {n : Nat} {heads : List (Message × Nat × Nat)} {last : Message}

theorem covers_last {start frags : Nat} (hread : Reads m ⟨start, frags, fragSize, n⟩)
    (hstart : 0 < start) (hfrags : 0 < frags) (hend : start + frags = fragments n + 1)
    (hlast : fragments n ≤ 131070) :
    Covers n (fragments n) start (contents m.cont) [] m := by
  refine ⟨⟨[⟨start, frags, fragSize, n⟩], ?_, ?_, ?_⟩, ?_, ?_⟩
  · exact List.Forall₂.cons hread List.Forall₂.nil
  · exact ⟨rfl, hfrags, hend⟩
  · intro rtps hmem
    obtain rfl := List.mem_singleton.mp hmem
    exact ⟨rfl, rfl, moreFragments_iff hstart hfrags (Nat.le_of_eq hend) hlast⟩
  · simp
  · intro head first second hmem
    exact absurd hmem List.not_mem_nil

theorem covers_cons {head : Message} {range : Nat × Nat} {start frags : Nat}
    {payload rest : List UInt8} (h : Covers n (fragments n) (start + frags) rest heads last)
    (hread : Reads head ⟨start, frags, fragSize, n⟩) (hstart : 0 < start) (hfrags : 0 < frags)
    (hle : start + frags ≤ fragments n + 1) (hlast : fragments n ≤ 131070)
    (hpayload : contents head.cont ++ rest = payload)
    (hrange : range = (start + frags - 1, fragments n)) :
    Covers n (fragments n) start payload ((head, range) :: heads) last := by
  obtain ⟨⟨all, hreads, htiles, hmarks⟩, hrest, hranges⟩ := h
  refine ⟨⟨⟨start, frags, fragSize, n⟩ :: all, List.Forall₂.cons hread hreads,
    ⟨rfl, hfrags, htiles⟩, ?_⟩, ?_, ?_⟩
  · intro rtps hmem
    rcases List.mem_cons.mp hmem with rfl | hmem
    · exact ⟨rfl, rfl, moreFragments_iff hstart hfrags hle hlast⟩
    · exact hmarks rtps hmem
  · rw [← hpayload, ← hrest]
    rfl
  · intro head' first second hmem
    rcases List.mem_cons.mp hmem with heq | hmem
    · cases heq
      cases hrange
      refine ⟨rfl, _, hread, ?_⟩
      show start + frags - 1 + 1 = start + frags
      omega
    · exact hranges head' first second hmem

theorem Rest.split (h : Rest size n m sm) (hsize : size < 2 ^ 64) (hn : n < 2 ^ 32)
    (hlong : size < m.totalLength) :
    ∃ frags halves, RtpsSampleHeader.split m size = .ok (some halves) ∧ Cut m sm frags halves ∧
      0 < frags ∧ halves.range = (sm.startingFrag + frags - 1, fragments n) ∧
      ∃ flags, Rest size n halves.tail
        ⟨sm.dataOffset, DATA_FRAG, flags, sm.startingFrag + frags, sm.sampleSize, sm.ids⟩ := by
  have hready := h.ready
  have hkind : sm.kind ≠ DATA := by
    rw [h.kind]
    decide
  have hstart := hready.start
  have hwhole := hready.whole
  rw [if_neg hkind] at hwhole
  have hpayload : (contents m.cont).length + (sm.startingFrag - 1) * 1024 = n := h.payload
  have hroom : m.header.length + 1024 ≤ size := h.room
  have hcount := h.count
  have htotal : m.totalLength = m.header.length + (contents m.cont).length := rfl
  have hunit : fragSize = 1024 := rfl
  have hfragments : ∀ k, fragments k = (k + 1024 - 1) / 1024 := fun _ => rfl
  rw [hfragments] at hcount
  obtain ⟨frags, hfrags⟩ : ∃ frags, frags = (size - m.header.length) / 1024 := ⟨_, rfl⟩
  obtain ⟨halves, hsplit, hcut⟩ := split_cut frags hready hsize rfl
    (by rw [if_neg hkind]; omega)
    (by rw [if_neg hkind, Nat.min_eq_left (by omega), hunit]; omega)
    (by rw [hunit]; omega) (by omega)
  have hlength : (contents halves.tail.cont).length = (contents m.cont).length - frags * 1024 := by
    rw [hcut.payloadTail, List.length_drop, hunit]
  have hleft : fragments ((contents m.cont).length - frags * fragSize) % 2 ^ 16 =
      fragments n + 1 - (sm.startingFrag + frags) := by
    rw [hfragments, hfragments, hunit]
    omega
  have hend : sm.startingFrag + frags ≤ fragments n := by
    rw [hfragments]
    omega
  obtain ⟨flags, htailReady⟩ := hcut.ready
  refine ⟨frags, halves, hsplit, hcut, by omega, ?_, flags, htailReady, rfl, h.sampleSize, ?_, ?_,
    by omega, ?_, ?_⟩
  · refine Prod.ext (hcut.first.trans (number_of_pos (by omega))) ?_
    rw [hcut.second, hleft, number_of_pos (by omega)]
    omega
  · have hread := hcut.tail
    rwa [hleft, h.sampleSize] at hread
  · show _ + (sm.startingFrag + frags - 1) * 1024 = n
    omega
  · show fragments n < sm.startingFrag + frags + 65535
    omega
  · rw [hcut.length, hunit]
    omega

theorem fragment_rest (rounds : Nat) (h : Rest size n m sm) (hsize : size < 2 ^ 64)
    (hn : n < 2 ^ 32) (hlast : fragments n ≤ 131070)
    (hrounds : fragments n < sm.startingFrag + rounds) :
    ∃ heads last, fragment size rounds m = some (heads, last) ∧
      Covers n (fragments n) sm.startingFrag (contents m.cont) heads last := by
  have hstart := h.ready.start
  have hends : sm.startingFrag ≤ fragments n := by
    have hpayload := h.payload
    have hnonempty := h.nonempty
    unfold fragments fragSize at *
    omega
  induction rounds generalizing m sm with
  | zero => omega
  | succ rounds ih =>
    unfold fragment
    by_cases hfits : m.totalLength ≤ size
    · rw [if_pos hfits]
      exact ⟨[], m, rfl, covers_last h.read hstart (by omega) (by omega) hlast⟩
    · obtain ⟨frags, halves, hsplit, hcut, hfrags, hrange, flags, hrest⟩ :=
        h.split hsize hn (by omega)
      have hpayload := hrest.payload
      have hnonempty := hrest.nonempty
      have hends' : sm.startingFrag + frags ≤ fragments n := by
        unfold fragments fragSize at *
        simp only at hpayload
        omega
      obtain ⟨heads, last, hfragment, hcovers⟩ :=
        ih hrest (show fragments n < sm.startingFrag + frags + rounds by omega) hrest.ready.start
          hends'
      refine ⟨(halves.head, halves.range) :: heads, last, ?_, ?_⟩
      · rw [if_neg hfits]
        simp only [hsplit, hfragment]
      · have hread := hcut.head
        rw [h.sampleSize] at hread
        refine covers_cons hcovers hread hstart hfrags (by omega) hlast ?_ hrange
        rw [hcut.payloadHead, hcut.payloadTail, List.take_append_drop]

end

section

variable {dataOffset : Nat} {flags : UInt8}

theorem DataMessage.ready (h : DataMessage m dataOffset flags)
    (hn : Serializer.totalLength m.cont < 2 ^ 32) :
    ∃ ids, Ready m ⟨dataOffset, DATA, flags, 1, Serializer.totalLength m.cont, ids⟩ := by
  have hwhole := h.whole
  let ids := (m.header.drop (dataOffset + 8)).take 16
  have hids : octets m.header (dataOffset + 8) 16 = .ok ids := by
    unfold octets
    rw [if_pos (by omega)]
  refine ⟨ids, h.found, ?_, ?_, Nat.one_pos, hn, ?_⟩
  · unfold submessage
    simp only [bind, Except.bind, h.found, h.kind, h.order, if_true, if_neg h.payload, hids,
      Nat.mod_eq_of_lt hn]
  · simp only [ids, List.length_take, List.length_drop]
    omega
  · exact hwhole

/-- A message that is too long, with room for a fragment next to its header. -/
structure TooLong (m : Message) (size : Nat) : Prop where
  payload : fragSize < Serializer.totalLength m.cont
  sampleSize : Serializer.totalLength m.cont < 2 ^ 32
  room : m.header.length + 12 + fragSize ≤ size
  bounded : size < 2 ^ 64
  long : size < m.totalLength

/-- The number of fragments that fit next to the header of a DATA_FRAG. -/
def room (m : Message) (size : Nat) : Nat := (size - (m.header.length + 12)) / fragSize

theorem first_cut (h : DataMessage m dataOffset flags) (hlong : TooLong m size) :
    ∃ ids halves, split m size = .ok (some halves) ∧
      Cut m ⟨dataOffset, DATA, flags, 1, Serializer.totalLength m.cont, ids⟩
        (room m size % 2 ^ 16) halves := by
  obtain ⟨ids, hready⟩ := h.ready hlong.sampleSize
  have hspace := hlong.room
  have htotal : size < m.header.length + (contents m.cont).length := hlong.long
  have hunit : fragSize = 1024 := rfl
  have hroom : room m size = (size - (m.header.length + 12)) / 1024 := rfl
  obtain ⟨halves, hsplit, hcut⟩ := split_cut (room m size % 2 ^ 16) hready hlong.bounded
    (if_pos rfl).symm (by omega)
    (by rw [Nat.min_eq_left (by omega)]; rfl)
    (by rw [hunit]; omega)
    (by show 1 + _ < _; omega)
  exact ⟨ids, halves, hsplit, hcut⟩

theorem second_eq {ids : List UInt8} {halves : Halves} (hlong : TooLong m size)
    (hcut : Cut m ⟨dataOffset, DATA, flags, 1, Serializer.totalLength m.cont, ids⟩
      (room m size % 2 ^ 16) halves) :
    halves.range.2 = number (room m size % 2 ^ 16 +
      (fragments (Serializer.totalLength m.cont) - room m size % 2 ^ 16) % 2 ^ 16) := by
  have htotal : size < m.header.length + (contents m.cont).length := hlong.long
  have hunit : fragSize = 1024 := rfl
  have hfragments : ∀ k, fragments k = (k + 1024 - 1) / 1024 := fun _ => rfl
  rw [hcut.second, Serializer.totalLength, hunit, hfragments, hfragments]
  refine congrArg number ?_
  show (1 + room m size % 2 ^ 16 + _ % 2 ^ 16 + 2 ^ 32 - 1) % 2 ^ 32 = _
  omega

theorem counts_of_fragmented (h : DataMessage m dataOffset flags) (hlong : TooLong m size)
    (hfragmented : Fragmented m size) :
    room m size < 2 ^ 16 ∧ fragments (Serializer.totalLength m.cont) - room m size < 2 ^ 16 := by
  obtain ⟨rounds, heads, last, hfragment, hcovers⟩ := hfragmented
  obtain ⟨ids, halves, hsplit, hcut⟩ := first_cut h hlong
  have htoo := hlong.long
  have hsecond : halves.range.2 = fragments (Serializer.totalLength m.cont) := by
    cases rounds with
    | zero =>
      rw [fragment, if_neg (by omega)] at hfragment
      cases hfragment
    | succ rounds =>
      rw [fragment, if_neg (by omega)] at hfragment
      simp only [hsplit] at hfragment
      cases hrest : fragment size rounds halves.tail with
      | none =>
        rw [hrest] at hfragment
        cases hfragment
      | some pieces =>
        rw [hrest] at hfragment
        cases hfragment
        exact (hcovers.ranges halves.head halves.range.1 halves.range.2 List.mem_cons_self).1
  have htotal : size < m.header.length + (contents m.cont).length := htoo
  have hfragments : fragments (Serializer.totalLength m.cont) =
      ((contents m.cont).length + 1024 - 1) / 1024 := rfl
  have hroom : room m size = (size - (m.header.length + 12)) / 1024 := rfl
  rw [second_eq hlong hcut, number_eq] at hsecond
  omega

theorem fragmented_iff (h : DataMessage m dataOffset flags) (hlong : TooLong m size) :
    Fragmented m size ↔
      room m size < 2 ^ 16 ∧ fragments (Serializer.totalLength m.cont) - room m size < 2 ^ 16 := by
  refine ⟨counts_of_fragmented h hlong, ?_⟩
  rintro ⟨hhead, hrest⟩
  obtain ⟨ids, halves, hsplit, hcut⟩ := first_cut h hlong
  have hsecond := second_eq hlong hcut
  rw [Nat.mod_eq_of_lt hhead] at hcut hsecond
  have hspace : m.header.length + 12 + 1024 ≤ size := hlong.room
  have htotal : size < m.header.length + (contents m.cont).length := hlong.long
  have hunit : fragSize = 1024 := rfl
  have hfragments : fragments (Serializer.totalLength m.cont) =
      ((contents m.cont).length + 1024 - 1) / 1024 := rfl
  have hroom : room m size = (size - (m.header.length + 12)) / 1024 := rfl
  have hwhole := h.whole
  have hlast : fragments (Serializer.totalLength m.cont) ≤ 131070 := by omega
  have hleft : fragments ((contents m.cont).length - room m size * fragSize) % 2 ^ 16 =
      fragments (Serializer.totalLength m.cont) + 1 - (1 + room m size) := by
    have hdiv : fragments ((contents m.cont).length - room m size * fragSize) =
        ((contents m.cont).length - room m size * 1024 + 1024 - 1) / 1024 := rfl
    omega
  obtain ⟨tailFlags, hready⟩ := hcut.ready
  have htail := hcut.tail
  rw [hleft] at htail
  have htailRest : Rest size (Serializer.totalLength m.cont) halves.tail
      ⟨dataOffset, DATA_FRAG, tailFlags, 1 + room m size, Serializer.totalLength m.cont, ids⟩ := by
    have hlength : (contents halves.tail.cont).length =
        (contents m.cont).length - room m size * 1024 := by
      rw [hcut.payloadTail, List.length_drop, hunit]
    refine ⟨hready, rfl, rfl, htail, ?_, by omega, ?_, ?_⟩
    · show _ + (1 + room m size - 1) * 1024 = (contents m.cont).length
      omega
    · show fragments _ < 1 + room m size + 65535
      omega
    · rw [hcut.length, hunit]
      show dataOffset + 36 + 1024 ≤ size
      omega
  obtain ⟨heads, last, hfragment, hcovers⟩ :=
    fragment_rest (fragments (Serializer.totalLength m.cont)) htailRest hlong.bounded
      hlong.sampleSize hlast (by show _ < 1 + room m size + _; omega)
  refine ⟨fragments (Serializer.totalLength m.cont) + 1, (halves.head, halves.range) :: heads,
    last, ?_, ?_⟩
  · rw [fragment, if_neg (Nat.not_le.mpr hlong.long)]
    simp only [hsplit, hfragment]
  · refine covers_cons hcovers hcut.head Nat.one_pos (by omega) (by omega) hlast ?_ ?_
    · rw [hcut.payloadHead, hcut.payloadTail, List.take_append_drop]
    · refine Prod.ext (hcut.first.trans (number_of_pos (by show 0 < 1 + _ - 1; omega))) ?_
      rw [hsecond, number_of_pos (by omega)]
      omega

end

section

/-- A DATA submessage and a payload of `n` bytes in one block. -/
def sample (n : Nat) : Message :=
  ⟨[DATA, flagE ||| flagD] ++ List.replicate 22 0, [⟨0, List.replicate n 0⟩]⟩

theorem sample_data (n : Nat) : DataMessage (sample n) 0 (flagE ||| flagD) := by
  refine ⟨?_, rfl, rfl, by decide, Nat.le_of_eq rfl⟩
  rw [findData]
  rfl

theorem length_sample (n : Nat) : Serializer.totalLength (sample n).cont = n := by
  simp [sample, Serializer.totalLength]

theorem sample_tooLong {n : Nat} (hn : 1024 < n) (hn' : n < 2 ^ 32) (hroom : 1060 ≤ size)
    (hsize : size < 2 ^ 64) (hlong : size < n + 24) : TooLong (sample n) size := by
  have hlength := length_sample n
  refine ⟨?_, ?_, hroom, hsize, ?_⟩
  · rwa [hlength]
  · rwa [hlength]
  · rw [Message.totalLength, hlength]
    show size < 24 + n
    omega

theorem fragmented_sample : Fragmented (sample 3000) 1500 := by
  refine (fragmented_iff (sample_data 3000) (sample_tooLong (by decide) (by decide) (by decide)
    (by decide) (by decide))).mpr ⟨by decide, ?_⟩
  rw [length_sample]
  decide

/-- A payload whose rest has 65536 fragments, and a size that leaves room for as many in the
head: the one header tells of no fragments in the rest, the other of none in the head. -/
theorem counts_wrap :
    (∃ halves, split (sample (65537 * 1024)) 1500 = .ok (some halves) ∧
      Reads halves.tail ⟨2, 0, 1024, 65537 * 1024⟩ ∧ halves.range = (1, 1)) ∧
    ¬ Fragmented (sample (65537 * 1024)) 1500 ∧
    (∃ halves, split (sample (65537 * 1024)) (36 + 65536 * 1024) = .ok (some halves) ∧
      Reads halves.head ⟨1, 0, 1024, 65537 * 1024⟩ ∧ halves.range = (1, 1)) ∧
    ¬ Fragmented (sample (65537 * 1024)) (36 + 65536 * 1024) := by
  have hdata := sample_data (65537 * 1024)
  have hlength := length_sample (65537 * 1024)
  have hsmall : TooLong (sample (65537 * 1024)) 1500 :=
    sample_tooLong (by decide) (by decide) (by decide) (by decide) (by decide)
  have hlarge : TooLong (sample (65537 * 1024)) (36 + 65536 * 1024) :=
    sample_tooLong (by decide) (by decide) (by decide) (by decide) (by decide)
  have hone : room (sample (65537 * 1024)) 1500 = 1 := rfl
  have hmany : room (sample (65537 * 1024)) (36 + 65536 * 1024) = 65536 := rfl
  refine ⟨?_, ?_, ?_, ?_⟩
  · obtain ⟨ids, halves, hsplit, hcut⟩ := first_cut hdata hsmall
    have hsecond := second_eq hsmall hcut
    have htail := hcut.tail
    have hcontents : (contents (sample (65537 * 1024)).cont).length = 65537 * 1024 := hlength
    have hfirst := hcut.first
    rw [number_eq, hone] at hfirst
    rw [number_eq, hone, hlength] at hsecond
    rw [hone, hcontents, hlength] at htail
    exact ⟨halves, hsplit, htail, Prod.ext hfirst hsecond⟩
  · intro hfragmented
    obtain ⟨-, hrest⟩ := counts_of_fragmented hdata hsmall hfragmented
    rw [hone, hlength] at hrest
    exact absurd hrest (by decide)
  · obtain ⟨ids, halves, hsplit, hcut⟩ := first_cut hdata hlarge
    have hsecond := second_eq hlarge hcut
    have hhead := hcut.head
    have hfirst := hcut.first
    rw [number_eq, hmany] at hfirst
    rw [number_eq, hmany, hlength] at hsecond
    rw [hmany, hlength] at hhead
    exact ⟨halves, hsplit, hhead, Prod.ext hfirst hsecond⟩
  · intro hfragmented
    obtain ⟨hhead, -⟩ := counts_of_fragmented hdata hlarge hfragmented
    exact absurd hhead (by decide)

end

end OpenDDS.Guarantees.RtpsFragments
