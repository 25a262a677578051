/-! Fingerprints of 64 bits. A text is taken in byte by byte, so the fingerprint of several texts
taken in one after another does not tell where one ends and the next begins. -/

namespace NodeWatch.Text

namespace Fingerprint

def start : UInt64 :=
  0xcbf29ce484222325

def factor : UInt64 :=
  0x100000001b3

def take (h : UInt64) (b : UInt8) : UInt64 :=
  (h ^^^ b.toUInt64) * factor

/-- The fingerprint after more bytes. -/
def takeAll (h : UInt64) (bytes : List UInt8) : UInt64 :=
  bytes.foldl take h

end Fingerprint

/-- The fingerprint of texts taken in one after another. -/
def fingerprint (texts : List String) : UInt64 :=
  texts.foldl (fun h s => Fingerprint.takeAll h s.toUTF8.toList) Fingerprint.start

end NodeWatch.Text
