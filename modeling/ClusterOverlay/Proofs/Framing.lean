import ClusterOverlay.Framing

/-!
# What is read off a stream

No packet that is read is too long for a frame.  Of the frame of any other packet this very
packet is read, and what follows is read as if the frame had not been there.
-/

namespace ClusterOverlay

namespace Framing

variable {packet stream : Bytes}

theorem packets_frame_append (short : packet.length ≤ Packet.frameLimit) (rest : Bytes) :
    packets (frame packet ++ rest) = (packet :: (packets rest).1, (packets rest).2) := by
  have split : take? (frame packet ++ rest) = some (packet, rest) :=
    take?_eq_some_iff.mpr ⟨short, rfl⟩
  rw [packets]
  split
  · next found =>
      rw [split] at found
      cases found
      rfl
  · next found =>
      rw [split] at found
      contradiction

theorem read_frame_append (short : packet.length ≤ Packet.frameLimit) (rest : Bytes) :
    read (frame packet ++ rest) = (packet :: (read rest).1, (read rest).2) := by
  rw [read, packets_frame_append short]
  rfl

theorem mem_read_frame (short : packet.length ≤ Packet.frameLimit) :
    packet ∈ (read (frame packet)).1 := by
  rw [← List.append_nil (frame packet), read_frame_append short]
  exact List.mem_cons_self

theorem length_le_of_mem_read (packetMem : packet ∈ (read stream).1) :
    packet.length ≤ Packet.frameLimit := by
  change packet ∈ (packets stream).1 at packetMem
  fun_induction packets stream with
  | case1 stream first rest found others remainder restEq inductionHypothesis =>
      rw [restEq] at inductionHypothesis
      rcases List.mem_cons.mp packetMem with rfl | later
      · exact (take?_eq_some_iff.mp found).1
      · exact inductionHypothesis later
  | case2 => contradiction

end Framing

end ClusterOverlay
