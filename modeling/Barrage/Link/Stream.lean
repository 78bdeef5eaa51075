import Barrage.Link.Connection
import Barrage.Link.Lines

/-!
A connection on a stream of bytes.

The lines of the stream become the frames that the connection receives, in order. A line that is too
long, or the end of the stream, ends the reading.
-/

namespace Barrage

/-- What some lines bring to a connection. -/
def receiptsOf (lines : List (List UInt8)) : List Connection.Event :=
  (lines.filterMap Frame.ofBytes?).map .receive

namespace LineReader

/-- What a piece of the stream brings to a connection. -/
def receive (limit : Nat) (r : LineReader) (piece : List UInt8) :
    LineReader × List Connection.Event :=
  let (after, lines) := r.read limit piece
  (after, receiptsOf lines ++ if after.overlong then [.endReading] else [])

/-- What the end of the stream brings to a connection. -/
def receiveEnd (r : LineReader) : List Connection.Event := receiptsOf r.finish ++ [.endReading]

end LineReader

namespace Connection

/-- The frame that is to be written next. -/
def nextFrame? (c : Connection) : Option Frame :=
  if c.writing then c.queue.head?.map Outbound.frame else none

/-- Whether neither side of the connection goes on. -/
def isOver (c : Connection) : Bool := !c.reading && !c.writing

/-- How a send was answered, once it was. -/
def answerTo? (c : Connection) (send : Nat) : Option SendResult := c.answered.lookup send

end Connection

end Barrage
