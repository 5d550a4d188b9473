import OrderedJobs.Host.Basic

/-! # Pipes

Making, closing and reading pipes.  A read returns what waits, up to a limit; when nothing waits it
returns no bytes at the end of the stream, which is reached when nobody holds the write end, and
fails otherwise. -/

namespace OrderedJobs.Host

variable (h : Host)

/-- Makes a pipe and opens both its ends. -/
def makePipe : Except OsError Nat × Host :=
  let h' := { h with pipeCalls := h.pipeCalls + 1 }
  match h.platform.faults.pipe.error? h.pipeCalls with
  | some e => (.error e, h')
  | none =>
    (.ok h.pipes, { h' with
      pipes := h.pipes + 1
      descriptors := h.descriptors ++ [.readEnd h.pipes, .writeEnd h.pipes] })

/-- Closes a descriptor of the parent. -/
def close (d : Descriptor) : Host :=
  if d ∈ h.descriptors then { h with descriptors := h.descriptors.erase d }
  else { h with misused := h.misused + 1 }

/-- Uses a descriptor of the parent. -/
def touch (d : Descriptor) : Host :=
  if d ∈ h.descriptors then h else { h with misused := h.misused + 1 }

/-- Uses the read end of a child's pipe. -/
def useOutput (i : Nat) : Host :=
  match h.children[i]? with
  | some c => h.touch (.readEnd c.pipe)
  | none => { h with misused := h.misused + 1 }

/-- Uses the read end of the wakeup pipe. -/
def useNotices : Host :=
  match h.wakeup with
  | some (.writeEnd p) => h.touch (.readEnd p)
  | _ => { h with misused := h.misused + 1 }

/-- Closes the read end of a child's pipe. -/
def closeOutput (i : Nat) : Host :=
  match h.children[i]? with
  | some c => h.close (.readEnd c.pipe)
  | none => h

/-- Takes all notices from the wakeup pipe. -/
def takeNotices : Host := { h.useNotices with notices := 0 }

/-- The pipe of a child cannot be written to any more. -/
def atEnd (c : Child) : Bool := !c.held && !h.descriptors.contains (.writeEnd c.pipe)

/-- A read from the child's pipe would return at once. -/
def readable (i : Nat) : Bool :=
  h.children[i]?.any fun c => !c.waiting.isEmpty || h.atEnd c

/-- Reads at most `limit` bytes of a child's output; no bytes mean the end of the stream. -/
def read (i limit : Nat) : Except OsError Bytes × Host :=
  match h.children[i]? with
  | none => (.error .badDescriptor, h.useOutput i)
  | some c =>
    if .readEnd c.pipe ∉ h.descriptors then (.error .badDescriptor, h.useOutput i)
    else
      match h.platform.faults.read.error? i with
      | some e => (.error e, h)
      | none =>
        if c.waiting.isEmpty && !h.atEnd c then (.error .tryAgain, h)
        else
          (.ok (c.waiting.take limit), h.updateChild i fun c =>
            { c with
              passed := c.passed ++ c.waiting.take limit
              waiting := c.waiting.drop limit })

/-! ### What using a descriptor leaves alone -/

theorem touch_frame (d : Descriptor) : ∃ misused, h.touch d = { h with misused := misused } := by
  unfold touch
  split
  · exact ⟨_, rfl⟩
  · exact ⟨_, rfl⟩

theorem useOutput_frame (i : Nat) : ∃ misused, h.useOutput i = { h with misused := misused } := by
  unfold useOutput
  split
  · exact h.touch_frame _
  · exact ⟨_, rfl⟩

theorem useNotices_frame : ∃ misused, h.useNotices = { h with misused := misused } := by
  unfold useNotices
  split
  · exact h.touch_frame _
  · exact ⟨_, rfl⟩

end OrderedJobs.Host
