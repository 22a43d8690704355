import JsonTint.Sink

/-!
# Writing call by call

A device may take less of a piece than it is handed, even if there is room for
more.  Whoever writes hands over the rest again, until nothing is left or the
device takes nothing.
-/

namespace JsonTint
namespace Sink

/-- What comes of handing a piece to a device, call by call.  While there is
room, each call takes a beginning of what is left, and not nothing. -/
inductive Calls : List UInt8 → Sink → Except IoFault Unit × Sink → Prop where
  | done (s : Sink) : Calls [] s (.ok (), s)
  | full {bytes : List UInt8} {s : Sink} (hne : bytes ≠ []) (hroom : s.room = 0) :
      Calls bytes s (.error .deviceFull, s)
  | taken {front behind : List UInt8} {s : Sink} {result : Except IoFault Unit × Sink}
      (hne : front ≠ []) (hroom : front.length ≤ s.room)
      (hrest : Calls behind { s with received := s.received ++ front } result) :
      Calls (front ++ behind) s result

end Sink
end JsonTint
