import P2PFFmpeg.Util.Error

namespace P2PFFmpeg.Tools

theorem eof_ne_eagain : averrorEof ≠ averrorEagain := by decide

theorem zero_ne_eagain : 0 ≠ averrorEagain := by decide

/-- An object of the pool, used before or new; a new one may lack memory. The
objects that are out are different, so that the queues hold their contents. -/
def objpoolGet (allocated : Bool) : Int := if allocated then 0 else averrorEnomem

end P2PFFmpeg.Tools
