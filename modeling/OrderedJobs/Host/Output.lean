import OrderedJobs.Host.Basic

/-! # The output

A write may take a part of the data only, but never nothing of something (`takes_ne_nil`), so
writing all of it ends. -/

namespace OrderedJobs.Host

variable (h : Host)

/-- The part of the data that one write takes. -/
def takes (data : Bytes) : Bytes :=
  match h.platform.faults.writeCap with
  | none => data
  | some cap => data.take cap

/-- Writes to the output, which takes a part of the data: the number of bytes it took. -/
def write (data : Bytes) : Except OsError Nat × Host :=
  let h' := { h with writeCalls := h.writeCalls + 1 }
  match h.platform.faults.write.error? h.writeCalls with
  | some e => (.error e, h')
  | none => (.ok (h.takes data).length, { h' with accepted := h.takes data :: h.accepted })

theorem takes_ne_nil {data : Bytes} (hd : data ≠ []) : h.takes data ≠ [] := by
  unfold takes
  split
  · exact hd
  · next cap _ =>
    have := cap.property
    simp only [ne_eq, List.take_eq_nil_iff, hd, or_false]
    omega

theorem write_progress {h h' : Host} {data : Bytes} {n : Nat} (hd : data ≠ [])
    (hw : h.write data = (.ok n, h')) : 0 < n := by
  unfold write at hw
  dsimp only at hw
  split at hw
  · cases hw
  · cases hw
    exact List.length_pos_iff.2 (h.takes_ne_nil hd)

/-- Writes all the data, in as many writes as it takes. -/
def writeAll (data : Bytes) (h : Host) : Except OsError Unit × Host :=
  if _hd : data = [] then (.ok (), h)
  else
    match _hw : h.write data with
    | (.error e, h') => (.error e, h')
    | (.ok n, h') => writeAll (data.drop n) h'
termination_by data.length
decreasing_by
  have := write_progress _hd _hw
  have := List.length_pos_iff.2 _hd
  simp only [List.length_drop]
  omega

end OrderedJobs.Host
