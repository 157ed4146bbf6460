import LinuxHandson.MiniProtocol.Session
import LinuxHandson.MiniProtocol.Proofs.CodecProofs

/-!
# A list of messages over one stream

What successive `send_message` calls put out, successive `recv_message` calls give back, however the
writes are cut short and however the reads cut the stream.
-/

namespace MiniProtocol

open CLib

theorem sendMessages_writes (ms : List Message) :
    Writes (sendMessages ms) (ms.flatMap Message.encode) (return ()) := by
  induction ms with
  | nil => exact Writes.done _
  | cons m ms ih => exact ((sendMessage_encode m).bind _).trans ih

/-- At the end of the stream `recv_message` fails. -/
theorem recvMessage_drains : Drains (recvMessage maxPayload) [] (return none) :=
  (readAll_drains (by decide)).bind _

/-- The calls after the last message find the end of the stream. -/
theorem recvMessages_end (k : Nat) :
    ∀ r : Conn Event, r.Healthy → r.bytes = [] →
      ∃ r', (recvMessages k).run conn r = some (List.replicate k none, r') ∧ r'.bytes = [] := by
  induction k with
  | zero => intro r _ hb; exact ⟨r, rfl, hb⟩
  | succ k ih =>
    intro r hr hb
    obtain ⟨input, hr', hnil, hrun⟩ := recvMessage_drains.run r hr hb
    obtain ⟨r'', hrest, hb''⟩ := ih _ hr' hnil
    refine ⟨r'', ?_, hb''⟩
    rw [recvMessages, Prog.run_bind_of_eq (hrun.trans rfl), Prog.run_bind_of_eq hrest]
    rfl

theorem recvMessages_run (ms : List Message) (k : Nat) :
    ∀ r : Conn Event, r.Healthy → r.bytes = ms.flatMap Message.encode →
      ∃ r', (recvMessages (ms.length + k)).run conn r =
        some (ms.map (fun m => some m.parts) ++ List.replicate k none, r') ∧ r'.bytes = [] := by
  induction ms with
  | nil =>
    intro r hr hb
    rw [List.length_nil, Nat.zero_add]
    exact recvMessages_end k r hr hb
  | cons m ms ih =>
    intro r hr hb
    rw [List.flatMap_cons] at hb
    obtain ⟨input, hr', hbytes, hrun⟩ := (recvMessage_reads m).run r _ hr hb
    obtain ⟨r'', hrest, hb''⟩ := ih _ hr' hbytes
    refine ⟨r'', ?_, hb''⟩
    rw [List.length_cons, Nat.succ_add, recvMessages, Prog.run_bind_of_eq (hrun.trans rfl),
      Prog.run_bind_of_eq hrest]
    simp only [Option.map_some, m.header_parts]
    rfl

/-- Messages that are sent one after the other are received one after the other, and nothing
else. -/
theorem recv_send_messages (ms : List Message) {c : Conn Event} (hc : c.Healthy)
    (hout : c.output = []) :
    ∃ c', (sendMessages ms).run conn c = some ((), c') ∧
      ∀ (r : Conn Event) (k : Nat), r.Healthy → r.bytes = c'.output →
        ∃ r', (recvMessages (ms.length + k)).run conn r =
          some (ms.map (fun m => some m.parts) ++ List.replicate k none, r') ∧ r'.bytes = [] := by
  obtain ⟨writes, -, hrun⟩ := (sendMessages_writes ms).run c hc
  refine ⟨_, hrun, ?_⟩
  intro r k hr hb
  rw [hout] at hb
  exact recvMessages_run ms k r hr hb

/-- A DATA message and an empty one. -/
def twoMessages : List Message := [hiMessage, ⟨msgStatus, 0, [], Nat.zero_le _⟩]

theorem recv_send_messages_two :
    ∃ c', (sendMessages twoMessages).run conn (Conn.cutAfter 0 []) = some ((), c') ∧
      ∃ r', (recvMessages 3).run conn (Conn.cutAfter 13 c'.output) =
        some ([some (msgData, 65535, [0x68, 0x69]), some (msgStatus, 0, []), none], r') ∧
          r'.bytes = [] := by
  obtain ⟨c', hrun, hrecv⟩ := recv_send_messages twoMessages (Conn.healthy_cutAfter 0 []) rfl
  exact ⟨c', hrun, hrecv _ 1 (Conn.healthy_cutAfter 13 _) (Conn.bytes_cutAfter 13 _)⟩

end MiniProtocol
