import SerialGateway.Serial.Step

/-!
This module contains what can be read off the log of a port: the bytes that came in, the calls of
`tcp_write` that went out and the frames the timer closed.
-/

namespace SerialGateway

variable {Pcb : Type}

def received (log : List (Event Pcb)) : List UInt8 :=
  log.filterMap fun
    | .rx dr => some dr
    | _ => none

def writes (log : List (Event Pcb)) : List (Pcb × List UInt8) :=
  log.filterMap fun
    | .write pcb data => some (pcb, data)
    | _ => none

def passes (log : List (Event Pcb)) : Nat :=
  log.countP fun
    | .passDone => true
    | _ => false

def sentTo [DecidableEq Pcb] (pcb : Pcb) (log : List (Event Pcb)) : List UInt8 :=
  log.flatMap fun
    | .write pcb' data => if pcb' = pcb then data else []
    | _ => []

def cutFrames (log : List (Event Pcb)) : List (List UInt8) × List UInt8 :=
  log.foldl (fun
    | (frames, bytes), .rx dr => (frames, bytes ++ [dr])
    | (frames, bytes), .closed => (frames ++ [bytes], [])
    | cut, _ => cut) ([], [])

def closedFrames (log : List (Event Pcb)) : List (List UInt8) := (cutFrames log).1

def openFrame (log : List (Event Pcb)) : List UInt8 := (cutFrames log).2

def cutPasses (log : List (Event Pcb))
    : List (List (Pcb × List UInt8)) × List (Pcb × List UInt8) :=
  log.foldl (fun
    | (done, pass), .write pcb data => (done, pass ++ [(pcb, data)])
    | (done, pass), .passDone => (done ++ [pass], [])
    | cut, _ => cut) ([], [])

def donePasses (log : List (Event Pcb)) : List (List (Pcb × List UInt8)) := (cutPasses log).1

def openPass (log : List (Event Pcb)) : List (Pcb × List UInt8) := (cutPasses log).2

def passData (pass : List (Pcb × List UInt8)) : List UInt8 := (pass.head?.map Prod.snd).getD []

def sentFrames (log : List (Event Pcb)) : List (List UInt8) :=
  ((donePasses log).map passData).filter (!·.isEmpty)

section Append

variable (log : List (Event Pcb))

@[simp]
theorem received_nil : received ([] : List (Event Pcb)) = [] := rfl

theorem received_append (new : List (Event Pcb))
    : received (log ++ new) = received log ++ received new := by
  simp [received]

@[simp]
theorem received_rx (dr : UInt8) : received (log ++ [.rx dr]) = received log ++ [dr] := by
  simp [received]

@[simp]
theorem received_closed : received (log ++ [.closed]) = received log := by
  simp [received]

@[simp]
theorem received_write (pcb : Pcb) (data : List UInt8)
    : received (log ++ [.write pcb data]) = received log := by
  simp [received]

@[simp]
theorem received_passDone : received (log ++ [.passDone]) = received log := by
  simp [received]

@[simp]
theorem writes_rx (dr : UInt8) : writes (log ++ [.rx dr]) = writes log := by
  simp [writes]

@[simp]
theorem writes_closed : writes (log ++ [.closed]) = writes log := by
  simp [writes]

@[simp]
theorem writes_passDone : writes (log ++ [.passDone]) = writes log := by
  simp [writes]

@[simp]
theorem passes_nil : passes ([] : List (Event Pcb)) = 0 := rfl

@[simp]
theorem passes_rx (dr : UInt8) : passes (log ++ [.rx dr]) = passes log := by
  simp [passes]

@[simp]
theorem passes_closed : passes (log ++ [.closed]) = passes log := by
  simp [passes]

@[simp]
theorem passes_write (pcb : Pcb) (data : List UInt8)
    : passes (log ++ [.write pcb data]) = passes log := by
  simp [passes]

@[simp]
theorem passes_passDone : passes (log ++ [.passDone]) = passes log + 1 := by
  simp [passes]

section SentTo

variable [DecidableEq Pcb] (pcb : Pcb)

@[simp]
theorem sentTo_nil : sentTo pcb [] = [] := rfl

theorem sentTo_append (new : List (Event Pcb))
    : sentTo pcb (log ++ new) = sentTo pcb log ++ sentTo pcb new := by
  simp [sentTo]

@[simp]
theorem sentTo_rx (dr : UInt8) : sentTo pcb (log ++ [.rx dr]) = sentTo pcb log := by
  simp [sentTo]

@[simp]
theorem sentTo_closed : sentTo pcb (log ++ [.closed]) = sentTo pcb log := by
  simp [sentTo]

theorem sentTo_write (pcb' : Pcb) (data : List UInt8)
    : sentTo pcb (log ++ [.write pcb' data])
        = sentTo pcb log ++ if pcb' = pcb then data else [] := by
  simp [sentTo]

@[simp]
theorem sentTo_passDone : sentTo pcb (log ++ [.passDone]) = sentTo pcb log := by
  simp [sentTo]

end SentTo

@[simp]
theorem closedFrames_rx (dr : UInt8) : closedFrames (log ++ [.rx dr]) = closedFrames log := by
  simp [closedFrames, cutFrames]

@[simp]
theorem closedFrames_closed
    : closedFrames (log ++ [.closed]) = closedFrames log ++ [openFrame log] := by
  simp [closedFrames, openFrame, cutFrames]

@[simp]
theorem closedFrames_write (pcb : Pcb) (data : List UInt8)
    : closedFrames (log ++ [.write pcb data]) = closedFrames log := by
  simp [closedFrames, cutFrames]

@[simp]
theorem closedFrames_passDone : closedFrames (log ++ [.passDone]) = closedFrames log := by
  simp [closedFrames, cutFrames]

@[simp]
theorem openFrame_nil : openFrame ([] : List (Event Pcb)) = [] := rfl

@[simp]
theorem openFrame_rx (dr : UInt8) : openFrame (log ++ [.rx dr]) = openFrame log ++ [dr] := by
  simp [openFrame, cutFrames]

@[simp]
theorem openFrame_closed : openFrame (log ++ [.closed]) = [] := by
  simp [openFrame, cutFrames]

@[simp]
theorem openFrame_write (pcb : Pcb) (data : List UInt8)
    : openFrame (log ++ [.write pcb data]) = openFrame log := by
  simp [openFrame, cutFrames]

@[simp]
theorem openFrame_passDone : openFrame (log ++ [.passDone]) = openFrame log := by
  simp [openFrame, cutFrames]

@[simp]
theorem donePasses_nil : donePasses ([] : List (Event Pcb)) = [] := rfl

@[simp]
theorem donePasses_rx (dr : UInt8) : donePasses (log ++ [.rx dr]) = donePasses log := by
  simp [donePasses, cutPasses]

@[simp]
theorem donePasses_closed : donePasses (log ++ [.closed]) = donePasses log := by
  simp [donePasses, cutPasses]

@[simp]
theorem donePasses_write (pcb : Pcb) (data : List UInt8)
    : donePasses (log ++ [.write pcb data]) = donePasses log := by
  simp [donePasses, cutPasses]

@[simp]
theorem donePasses_passDone
    : donePasses (log ++ [.passDone]) = donePasses log ++ [openPass log] := by
  simp [donePasses, openPass, cutPasses]

@[simp]
theorem openPass_nil : openPass ([] : List (Event Pcb)) = [] := rfl

@[simp]
theorem openPass_rx (dr : UInt8) : openPass (log ++ [.rx dr]) = openPass log := by
  simp [openPass, cutPasses]

@[simp]
theorem openPass_closed : openPass (log ++ [.closed]) = openPass log := by
  simp [openPass, cutPasses]

@[simp]
theorem openPass_write (pcb : Pcb) (data : List UInt8)
    : openPass (log ++ [.write pcb data]) = openPass log ++ [(pcb, data)] := by
  simp [openPass, cutPasses]

@[simp]
theorem openPass_passDone : openPass (log ++ [.passDone]) = [] := by
  simp [openPass, cutPasses]

theorem sentFrames_passDone
    : sentFrames (log ++ [.passDone])
        = sentFrames log
          ++ if (passData (openPass log)).isEmpty then [] else [passData (openPass log)] := by
  unfold sentFrames
  rw [donePasses_passDone, List.map_append, List.filter_append]
  cases h : (passData (openPass log)).isEmpty <;> simp [h]

end Append

theorem passData_eq {pass : List (Pcb × List UInt8)} {data : List UInt8}
    (h : ∀ w ∈ pass, w.2 = data) (hne : pass ≠ [] ∨ data = [])
    : passData pass = data := by
  cases pass with
  | nil =>
    rw [hne.resolve_left (fun hne => hne rfl)]
    rfl
  | cons w pass => exact h w (List.mem_cons_self)

end SerialGateway
