/-
  StreamBuffer.Buffer.Error

  How a read can fail. A direct read fails for one of two causes, both of which
  end that call only. A read through the byte-stream interface knows no end of
  stream (there the end is a read of no bytes), and the calls that read
  repeatedly add two causes of their own. Every cause has one kind and one text.

  The reference is `BufferError` of ssh-buffer, with its messages and its `kind`.
-/

namespace StreamBuffer

/-- Why a direct read gave no bytes: the buffer is closed and all was taken, or
    the deadline was reached. -/
inductive ReadError where
  | endOfStream
  | deadlineExceeded
  deriving Repr, DecidableEq

/-- The text of a direct read's failure. -/
def ReadError.message : ReadError → String
  | .endOfStream => "end of stream"
  | .deadlineExceeded => "i/o deadline exceeded"

/-- The kinds of failure that the byte-stream interface tells apart. -/
inductive ErrorKind where
  | unexpectedEnd
  | timedOut
  | invalidData
  deriving Repr, DecidableEq

/-- Why a read through the byte-stream interface failed: a direct read's failure
    carried on, a destination that the stream's end left unfilled, or bytes that
    were to be text and are not. -/
inductive StreamError where
  | read (cause : ReadError)
  | unfilled
  | notText
  deriving Repr, DecidableEq

namespace StreamError

/-- The kind of a failure. -/
def kind : StreamError → ErrorKind
  | .read .endOfStream => .unexpectedEnd
  | .read .deadlineExceeded => .timedOut
  | .unfilled => .unexpectedEnd
  | .notText => .invalidData

/-- The text of a failure. -/
def message : StreamError → String
  | .read cause => cause.message
  | .unfilled => "failed to fill whole buffer"
  | .notText => "stream did not contain valid UTF-8"

/-- The direct read's failure that a failure carries, if any. -/
def cause? : StreamError → Option ReadError
  | .read cause => some cause
  | .unfilled | .notText => none

end StreamError

end StreamBuffer
