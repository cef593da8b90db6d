import HyperPlotter.Foundation.Memory

/-!
# Plot geometry

The constants of `plotter_base` and its byte-order conversion.
-/

namespace HyperPlotter.Poc

open Foundation

/-- `HASH_SIZE`, in bytes. -/
def hashSize : Nat := 32

/-- `HASHES_PER_SCOOP`. -/
def hashesPerScoop : Nat := 2

/-- `SCOOP_SIZE`, in bytes. -/
def scoopSize : Nat := hashesPerScoop * hashSize

/-- `SCOOPS_PER_PLOT`. -/
def scoopsPerPlot : Nat := 4096

/-- `PLOT_SIZE`, the bytes of one nonce. -/
def plotSize : Nat := scoopsPerPlot * scoopSize

/-- `SEED_LENGTH`, in bytes. -/
def seedLength : Nat := 16

/-- `PLOT_TOTAL_SIZE`, a nonce followed by its seed. -/
def plotTotalSize : Nat := plotSize + seedLength

/-- `HASH_CAP`, the longest message of the hash chain. -/
def hashCap : Nat := 4096

/-- `hton_ull`, with the masks and shifts of the source. -/
def htonUll (n : BitVec 64) : BitVec 64 :=
  ((n &&& 0xff00000000000000#64) >>> 56) ||| ((n &&& 0x00ff000000000000#64) >>> 40) |||
    ((n &&& 0x0000ff0000000000#64) >>> 24) ||| ((n &&& 0x000000ff00000000#64) >>> 8) |||
    ((n &&& 0x00000000ff000000#64) <<< 8) ||| ((n &&& 0x0000000000ff0000#64) <<< 24) |||
    ((n &&& 0x000000000000ff00#64) <<< 40) ||| ((n &&& 0x00000000000000ff#64) <<< 56)

end HyperPlotter.Poc
