namespace Warboard.Zip

/-- The low octets of a number, the lowest first. -/
def littleEndian : (width n : Nat) → List UInt8
  | 0, _ => []
  | width + 1, n => UInt8.ofNat n :: littleEndian width (n / 256)

def shiftChecksum : Nat → UInt32 → UInt32
  | 0, c => c
  | n + 1, c => shiftChecksum n (if c &&& 1 = 1 then (c >>> 1) ^^^ 0xEDB88320 else c >>> 1)

def checksum (content : List UInt8) : UInt32 :=
  content.foldl (fun c b => shiftChecksum 8 (c ^^^ b.toUInt32)) 0xFFFFFFFF ^^^ 0xFFFFFFFF

/-- One block of the deflate format that holds its octets as they are. -/
def block (last : Bool) (content : List UInt8) : List UInt8 :=
  (if last then 1 else 0) :: littleEndian 2 content.length ++
    littleEndian 2 (0xFFFF - content.length) ++ content

/-- The content in blocks of the largest size. -/
def deflate (content : List UInt8) : List UInt8 :=
  if content.length ≤ 0xFFFF then block true content
  else block false (content.take 0xFFFF) ++ deflate (content.drop 0xFFFF)
termination_by content.length
decreasing_by simp only [List.length_drop]; omega

/-- What the header of an entry and its place in the list at the end have in common. -/
def description (name content packed : List UInt8) : List UInt8 :=
  littleEndian 2 20 ++ littleEndian 2 0x800 ++ littleEndian 2 8 ++ littleEndian 2 0 ++
    littleEndian 2 0x21 ++ littleEndian 4 (checksum content).toNat ++
    littleEndian 4 packed.length ++ littleEndian 4 content.length ++
    littleEndian 2 name.length ++ littleEndian 2 0

/-- An archive with one entry. -/
def archive (name content : List UInt8) : List UInt8 :=
  let packed := deflate content
  let about := description name content packed
  let entry := littleEndian 4 0x04034B50 ++ about ++ name ++ packed
  let listed := littleEndian 4 0x02014B50 ++ littleEndian 2 20 ++ about ++ littleEndian 2 0 ++
    littleEndian 2 0 ++ littleEndian 2 0 ++ littleEndian 4 0 ++ littleEndian 4 0 ++ name
  entry ++ listed ++ littleEndian 4 0x06054B50 ++ littleEndian 2 0 ++ littleEndian 2 0 ++
    littleEndian 2 1 ++ littleEndian 2 1 ++ littleEndian 4 listed.length ++
    littleEndian 4 entry.length ++ littleEndian 2 0

end Warboard.Zip
