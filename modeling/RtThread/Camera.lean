import RtThread.Framing

/-! The JPEG stream of eth_camera.c and the two receivers of tool/. The board writes
the frames one after the other, without a length; the receivers cut at the markers. -/
namespace RtThread
open Framing

namespace EthCamera

def jpegBufSize : Nat := 32 * 1024

/-- The loop of jpeg_frame_length from `i` on. -/
def frameLengthFrom (buf : Nat → UInt8) (maxLen i : Nat) : Nat :=
  if i + 1 < maxLen then
    if buf i = 0xFF ∧ buf (i + 1) = 0xD9 then i + 2 else frameLengthFrom buf maxLen (i + 1)
  else 0
termination_by maxLen - i

def jpegFrameLength (buf : Nat → UInt8) (maxLen : Nat) : Nat := frameLengthFrom buf maxLen 0

/-- What eth_camera_server_thread hands to netconn_write after a capture into `buf`, if anything. -/
def sentFrame (buf : Nat → UInt8) : Option (List UInt8) :=
  let jpegLen := jpegFrameLength buf jpegBufSize
  if jpegLen < 100 ∨ buf 0 ≠ 0xFF ∨ buf 1 ≠ 0xD8 then none
  else some ((List.range jpegLen).map buf)

/-- The frames of a connection, given the captures. -/
def sentFrames (captures : List (Nat → UInt8)) : List (List UInt8) := captures.filterMap sentFrame

end EthCamera

def soiMarker : List UInt8 := [0xFF, 0xD8]
def eoiMarker : List UInt8 := [0xFF, 0xD9]

theorem soi_bounds {buf : List UInt8} {start i : Nat} (found : find buf soiMarker start = some i) :
    start ≤ i ∧ i + 2 ≤ buf.length := find_bounds found (by decide)

theorem eoi_bounds {buf : List UInt8} {start i : Nat} (found : find buf eoiMarker start = some i) :
    start ≤ i ∧ i + 2 ≤ buf.length := find_bounds found (by decide)

namespace RecvCamera

/-- The loop of split_jpeg. -/
def splitFrom (buf : List UInt8) (frames : List (List UInt8)) (start : Nat) :
    List (List UInt8) × List UInt8 :=
  match _ : find buf soiMarker start with
  | none => (frames, buf.drop start)
  | some soi =>
    match _ : find buf eoiMarker (soi + 2) with
    | none => (frames, buf.drop soi)
    | some eoi => splitFrom buf (frames ++ [slice buf soi (eoi + 2)]) (eoi + 2)
termination_by buf.length - start
decreasing_by
  have first := soi_bounds ‹find buf soiMarker start = some soi›
  have last := eoi_bounds ‹find buf eoiMarker (soi + 2) = some eoi›
  lia

def splitJpeg (buf : List UInt8) : List (List UInt8) × List UInt8 := splitFrom buf [] 0

end RecvCamera

namespace RecvCameraView

def maxJpegBytes : Nat := 36 * 1024
def staleBufLimit : Nat := 48 * 1024

/-- The loop of split_jpeg. -/
def splitFrom (buf : List UInt8) (frames : List (List UInt8)) (start : Nat) :
    List (List UInt8) × List UInt8 :=
  match _ : find buf soiMarker start with
  | none => (frames, buf.drop start)
  | some soi =>
    match _ : find buf eoiMarker (soi + 2) with
    | none =>
      if staleBufLimit < buf.length - soi then splitFrom buf frames (soi + 2)
      else (frames, buf.drop soi)
    | some eoi =>
      let frame := slice buf soi (eoi + 2)
      if maxJpegBytes < frame.length then splitFrom buf frames (eoi + 2)
      else splitFrom buf (frames ++ [frame]) (eoi + 2)
termination_by buf.length - start
decreasing_by
  · have first := soi_bounds ‹find buf soiMarker start = some soi›
    lia
  · have first := soi_bounds ‹find buf soiMarker start = some soi›
    have last := eoi_bounds ‹find buf eoiMarker (soi + 2) = some eoi›
    lia
  · have first := soi_bounds ‹find buf soiMarker start = some soi›
    have last := eoi_bounds ‹find buf eoiMarker (soi + 2) = some eoi›
    lia

def splitJpeg (buf : List UInt8) : List (List UInt8) × List UInt8 := splitFrom buf [] 0

/-- The same with what main does to a buffer that has grown too long. -/
def splitOrResync (buf : List UInt8) : List (List UInt8) × List UInt8 :=
  let (frames, buf) := splitJpeg buf
  if frames = [] ∧ staleBufLimit < buf.length then
    (frames, match rfind buf soiMarker with
      | some soi => buf.drop soi
      | none => [])
  else (frames, buf)

end RecvCameraView

open EthCamera

/-- A frame: the start marker in front, the end marker at the end and nowhere before. -/
structure IsFrame (f : List UInt8) : Prop where
  header : At soiMarker f 0
  ending : ∀ i, At eoiMarker f i ↔ i + 2 = f.length
  long : 4 ≤ f.length
  short : f.length ≤ jpegBufSize

variable {buf : Nat → UInt8} {f p : List UInt8}

/-- The end marker at position `i` of the capture. -/
def EndsAt (buf : Nat → UInt8) (i : Nat) : Prop := buf i = 0xFF ∧ buf (i + 1) = 0xD9

theorem frameLengthFrom_spec (buf : Nat → UInt8) (maxLen i : Nat) :
    (frameLengthFrom buf maxLen i = 0 ∧ ∀ k, i ≤ k → k + 1 < maxLen → ¬ EndsAt buf k) ∨
      ∃ j, frameLengthFrom buf maxLen i = j + 2 ∧ j + 1 < maxLen ∧ EndsAt buf j ∧
        ∀ k, i ≤ k → k < j → ¬ EndsAt buf k := by
  fun_induction frameLengthFrom buf maxLen i with
  | case1 i inside marker =>
    exact .inr ⟨i, rfl, inside, marker, fun k _ _ => by lia⟩
  | case2 i inside other ih =>
    have skip : ∀ k, i ≤ k → (i + 1 ≤ k → ¬ EndsAt buf k) → ¬ EndsAt buf k := by
      intro k after later
      by_cases here : k = i
      · rw [here]
        exact other
      · exact later (by lia)
    obtain ⟨none, nowhere⟩ | ⟨j, length, within, marker, before⟩ := ih
    · exact .inl ⟨none, fun k after bound => skip k after (fun later => nowhere k later bound)⟩
    · exact .inr ⟨j, length, within, marker,
        fun k after earlier => skip k after (fun later => before k later earlier)⟩
  | case3 i outside => exact .inl ⟨rfl, fun k _ _ => by lia⟩

theorem at_pair (a b : UInt8) (n i : Nat) :
    At [a, b] ((List.range n).map buf) i ↔ i + 2 ≤ n ∧ buf i = a ∧ buf (i + 1) = b := by
  by_cases inside : i + 2 ≤ n
  · obtain ⟨k, rfl⟩ : ∃ k, n = i + (k + 2) := ⟨n - (i + 2), by lia⟩
    simp [At, List.range_add, List.range_succ_eq_map, eq_comm]
  · constructor
    · intro here
      have bound := here.bound
      simp only [List.length_cons, List.length_nil, List.length_map, List.length_range] at bound
      lia
    · intro here
      exact absurd here.1 inside

theorem sentFrame_isFrame (sent : sentFrame buf = some f) : IsFrame f := by
  simp only [sentFrame] at sent
  split at sent
  · contradiction
  · rename_i accepted
    obtain ⟨long, first, second⟩ : ¬ jpegFrameLength buf jpegBufSize < 100 ∧ buf 0 = 0xFF ∧ buf 1 = 0xD8 := by
      simpa only [not_or, not_not] using accepted
    obtain ⟨none, -⟩ | ⟨j, length, within, marker, before⟩ := frameLengthFrom_spec buf jpegBufSize 0
    · simp only [jpegFrameLength, none] at long
      lia
    · cases sent
      simp only [jpegFrameLength, length] at long ⊢
      constructor
      · rw [soiMarker, at_pair]
        exact ⟨by lia, first, second⟩
      · intro i
        simp only [eoiMarker, at_pair, List.length_map, List.length_range]
        constructor
        · rintro ⟨inside, here⟩
          by_contra other
          exact before i (Nat.zero_le i) (by lia) here
        · intro last
          obtain rfl : i = j := by lia
          exact ⟨by lia, marker⟩
      · simp only [List.length_map, List.length_range]
        lia
      · simp only [List.length_map, List.length_range]
        lia

theorem IsFrame.found (frame : IsFrame f) (pre rest : List UInt8) :
    find (pre ++ (f ++ rest)) soiMarker pre.length = some pre.length ∧
      find (pre ++ (f ++ rest)) eoiMarker (pre.length + 2) = some (pre.length + (f.length - 2)) ∧
      slice (pre ++ (f ++ rest)) pre.length (pre.length + (f.length - 2) + 2) = f := by
  have long := frame.long
  have inside : ∀ i, i + 2 ≤ f.length →
      (At eoiMarker (pre ++ (f ++ rest)) (pre.length + i) ↔ i + 2 = f.length) := by
    intro i bound
    rw [at_append_left, at_append_right (by exact bound)]
    exact frame.ending i
  refine ⟨?_, ?_, ?_⟩
  · rw [find_eq_some]
    refine ⟨?_, ⟨Nat.le_refl _, by simp⟩, fun j after before => by lia⟩
    rw [← Nat.add_zero pre.length, at_append_left, at_append_right (by exact (by lia : 2 ≤ f.length))]
    exact frame.header
  · rw [find_eq_some]
    refine ⟨(inside _ (by lia)).mpr (by lia), ⟨by lia, by simp only [List.length_append]; lia⟩, ?_⟩
    intro j after before
    obtain ⟨i, rfl⟩ : ∃ i, j = pre.length + i := ⟨j - pre.length, by lia⟩
    rw [inside i (by lia)]
    lia
  · have size : pre.length + (f.length - 2) + 2 - pre.length = f.length := by lia
    rw [slice, List.drop_left, size, List.take_left]

theorem started_found (started : Started IsFrame p) (pre : List UInt8) :
    p.length < jpegBufSize ∧ find (pre ++ p) eoiMarker (pre.length + 2) = none ∧
      (find (pre ++ p) soiMarker pre.length = none ∨
        find (pre ++ p) soiMarker pre.length = some pre.length) := by
  obtain rfl | ⟨f, frame, ⟨more, rfl⟩, less⟩ := started
  · refine ⟨by decide, ?_, .inl ?_⟩
    · rw [find_eq_none (by decide)]
      intro j after here
      have bound : 2 ≤ (pre ++ []).length - j := here.bound
      simp only [List.append_nil] at bound
      lia
    · rw [find_eq_none (by decide)]
      intro j after here
      have bound : 2 ≤ (pre ++ []).length - j := here.bound
      simp only [List.append_nil] at bound
      lia
  · have inside : ∀ {pat : List UInt8} {j : Nat}, pat.length = 2 → pre.length ≤ j →
        At pat (pre ++ p) j → j - pre.length + 2 ≤ p.length ∧ At pat (p ++ more) (j - pre.length) := by
      intro pat j two after here
      have bound := here.bound
      simp only [two, List.length_append] at bound
      have fits : j - pre.length + 2 ≤ p.length := by lia
      refine ⟨fits, (at_append_right (by lia)).mpr ?_⟩
      rw [← at_append_left pre, Nat.add_sub_cancel' after]
      exact here
    refine ⟨Nat.lt_of_lt_of_le less frame.short, ?_, ?_⟩
    · rw [find_eq_none (by decide)]
      intro j after here
      obtain ⟨fits, ends⟩ := inside rfl (by lia) here
      have last := (frame.ending _).mp ends
      lia
    · by_cases two : 2 ≤ p.length
      · right
        rw [find_eq_some]
        refine ⟨?_, ⟨Nat.le_refl _, by simp⟩, fun j after before => by lia⟩
        rw [← Nat.add_zero pre.length, at_append_left, ← at_append_right (by exact two)]
        exact frame.header
      · left
        rw [find_eq_none (by decide)]
        intro j after here
        have fits := (inside rfl after here).1
        lia

namespace RecvCamera

theorem splitFrom_frame (pre f rest : List UInt8) (frames : List (List UInt8)) (frame : IsFrame f) :
    splitFrom (pre ++ (f ++ rest)) frames pre.length =
      splitFrom (pre ++ (f ++ rest)) (frames ++ [f]) (pre ++ f).length := by
  obtain ⟨front, last, cut⟩ := frame.found pre rest
  have long := frame.long
  have position : pre.length + (f.length - 2) + 2 = (pre ++ f).length := by
    rw [List.length_append]
    lia
  rw [splitFrom]
  split
  · rename_i other
    rw [front] at other
    contradiction
  · rename_i soi found
    rw [front] at found
    cases found
    split
    · rename_i other
      rw [last] at other
      contradiction
    · rename_i eoi found
      rw [last] at found
      cases found
      rw [cut, position]

theorem splitFrom_started (pre p : List UInt8) (frames : List (List UInt8)) (started : Started IsFrame p) :
    splitFrom (pre ++ p) frames pre.length = (frames, p) := by
  obtain ⟨-, noEnd, none | front⟩ := started_found started pre
  · rw [splitFrom]
    split
    · rw [List.drop_left]
    · rename_i other
      rw [none] at other
      contradiction
  · rw [splitFrom]
    split
    · rw [List.drop_left]
    · rename_i soi found
      rw [front] at found
      cases found
      split
      · rw [List.drop_left]
      · rename_i other
        rw [noEnd] at other
        contradiction

theorem splitJpeg_exact : Exact IsFrame splitJpeg := loop_exact splitFrom_frame splitFrom_started

end RecvCamera

namespace RecvCameraView

theorem splitFrom_frame (pre f rest : List UInt8) (frames : List (List UInt8)) (frame : IsFrame f) :
    splitFrom (pre ++ (f ++ rest)) frames pre.length =
      splitFrom (pre ++ (f ++ rest)) (frames ++ [f]) (pre ++ f).length := by
  obtain ⟨front, last, cut⟩ := frame.found pre rest
  have long := frame.long
  have short : ¬ maxJpegBytes < f.length := by
    have bound := frame.short
    simp only [maxJpegBytes, jpegBufSize] at bound ⊢
    lia
  have position : pre.length + (f.length - 2) + 2 = (pre ++ f).length := by
    rw [List.length_append]
    lia
  rw [splitFrom]
  split
  · rename_i other
    rw [front] at other
    contradiction
  · rename_i soi found
    rw [front] at found
    cases found
    split
    · rename_i other
      rw [last] at other
      contradiction
    · rename_i eoi found
      rw [last] at found
      cases found
      simp only [cut]
      rw [if_neg short, position]

theorem splitFrom_started (pre p : List UInt8) (frames : List (List UInt8)) (started : Started IsFrame p) :
    splitFrom (pre ++ p) frames pre.length = (frames, p) := by
  obtain ⟨short, noEnd, none | front⟩ := started_found started pre
  · rw [splitFrom]
    split
    · rw [List.drop_left]
    · rename_i other
      rw [none] at other
      contradiction
  · have fresh : ¬ staleBufLimit < (pre ++ p).length - pre.length := by
      simp only [staleBufLimit, jpegBufSize, List.length_append] at short ⊢
      lia
    rw [splitFrom]
    split
    · rw [List.drop_left]
    · rename_i soi found
      rw [front] at found
      cases found
      split
      · rw [if_neg fresh, List.drop_left]
      · rename_i other
        rw [noEnd] at other
        contradiction

theorem splitJpeg_exact : Exact IsFrame splitJpeg := loop_exact splitFrom_frame splitFrom_started

theorem splitOrResync_exact : Exact IsFrame splitOrResync := by
  intro fs p whole started
  have fresh : ¬ staleBufLimit < p.length := by
    have short := (started_found started []).1
    simp only [staleBufLimit, jpegBufSize] at short ⊢
    lia
  simp [splitOrResync, splitJpeg_exact fs p whole started, fresh]

end RecvCameraView

theorem sentFrames_isFrame (captures : List (Nat → UInt8)) : ∀ f ∈ sentFrames captures, IsFrame f := by
  intro f member
  obtain ⟨buf, -, sent⟩ := List.mem_filterMap.mp member
  exact sentFrame_isFrame sent

/-- Whatever the captures are and however the stream is cut into pieces, both receivers
give the frames back, and so does the viewer with its resynchronisation. -/
theorem camera_stream_exact (captures : List (Nat → UInt8)) (chunks : List (List UInt8))
    (stream : chunks.flatten = (sentFrames captures).flatten) :
    receive RecvCamera.splitJpeg chunks = (sentFrames captures, []) ∧
      receive RecvCameraView.splitJpeg chunks = (sentFrames captures, []) ∧
      receive RecvCameraView.splitOrResync chunks = (sentFrames captures, []) := by
  have frames := sentFrames_isFrame captures
  exact ⟨receive_exact RecvCamera.splitJpeg_exact frames stream,
    receive_exact RecvCameraView.splitJpeg_exact frames stream,
    receive_exact RecvCameraView.splitOrResync_exact frames stream⟩

def smallCapture (n i : Nat) : UInt8 :=
  if i = 0 ∨ i = n then 0xFF else if i = 1 then 0xD8 else if i = n + 1 then 0xD9 else 0

theorem smallCapture_sent : sentFrame (smallCapture 98) = some ((List.range 100).map (smallCapture 98)) := by
  have ends : EndsAt (smallCapture 98) 98 := ⟨rfl, rfl⟩
  have nowhere : ∀ k < 98, ¬ (smallCapture 98 k = 0xFF ∧ smallCapture 98 (k + 1) = 0xD9) := by decide
  have length : jpegFrameLength (smallCapture 98) jpegBufSize = 100 := by
    obtain ⟨-, no⟩ | ⟨j, length, -, marker, before⟩ := frameLengthFrom_spec (smallCapture 98) jpegBufSize 0
    · exact absurd ends (no 98 (by decide) (by decide))
    · have early : ¬ j < 98 := fun less => nowhere j less marker
      have late : ¬ 98 < j := fun more => before 98 (by lia) more ends
      rw [jpegFrameLength, length]
      lia
  simp [sentFrame, length, smallCapture]

/-- Two frames in three pieces, the cuts inside of a start and of an end marker. -/
theorem camera_stream_exact_three_pieces :
    let frame := (List.range 100).map (smallCapture 98)
    receive RecvCamera.splitJpeg [frame.take 1, frame.drop 1 ++ frame.take 99, frame.drop 99] =
      ([frame, frame], []) := by
  intro frame
  have frames : sentFrames [smallCapture 98, smallCapture 98] = [frame, frame] := by
    simp only [sentFrames, List.filterMap_cons, List.filterMap_nil, smallCapture_sent, frame]
  have stream : [frame.take 1, frame.drop 1 ++ frame.take 99, frame.drop 99].flatten =
      (sentFrames [smallCapture 98, smallCapture 98]).flatten := by
    rw [frames]
    simp only [List.flatten_cons, List.flatten_nil, List.append_nil]
    rw [List.append_assoc, List.take_append_drop, ← List.append_assoc, List.take_append_drop]
  have both := camera_stream_exact [smallCapture 98, smallCapture 98] _ stream
  rw [frames] at both
  exact both.1

end RtThread
