import OpenDDS.Source.QosHelper
import OpenDDS.Source.QosMatching
import OpenDDS.Source.DataSampleHeader

/-!
The lifespan of samples: what `DataWriterImpl::create_sample_data_message` puts into the
header, `DataReaderImpl::filter_sample`, and `resend_data_expired`
(dds/DCPS/WriteDataContainer.cpp). The sums of the fields of a time are those of the
machine, also the signed one. The current time is in microseconds.
-/
namespace OpenDDS.Source.Lifespan

open QosHelper
open DataSampleHeader (Header GUID)

/-- The timestamp and the lifespan of a sample. -/
def stamp (h : Header) (timestamp : Time_t) (lifespan : Duration_t) : Header :=
  let h := { h with
    sourceTimestampSec := timestamp.sec
    sourceTimestampNanosec := timestamp.nanosec }
  if lifespan.sec != durationInfinite.sec || lifespan.nanosec != durationInfinite.nanosec then
    { h with
      lifespanDuration := true
      lifespanDurationSec := lifespan.sec
      lifespanDurationNanosec := lifespan.nanosec }
  else h

/-- What `filter_sample` reads of a data reader. A writer has a timer while its historic
samples are awaited. -/
structure Reader where
  alwaysGetHistory : Bool
  durability : QosMatching.Durability
  writers : GUID → Option Int

/-- `WriterInfo::NOT_WAITING`. -/
def notWaiting : Int := -1

def discardsHistoric (r : Reader) (h : Header) : Bool :=
  !r.alwaysGetHistory && h.historicSample && r.durability == .volatile

def awaitsHistoric (r : Reader) (h : Header) : Bool :=
  !h.historicSample && match r.writers h.publicationId with
    | some timer => timer != notWaiting
    | none => false

def filterSample (r : Reader) (h : Header) (now : Int) : Bool :=
  if discardsHistoric r h then true
  else
    let tmp : Time_t := ⟨h.sourceTimestampSec + h.lifespanDurationSec,
      h.sourceTimestampNanosec + h.lifespanDurationNanosec⟩
    if h.lifespanDuration && decide (now ≥ timeToTimeValue tmp) then true
    else awaitsHistoric r h

def resendDataExpired (element : Header) (lifespan : Duration_t) (now : Int) : Bool :=
  if lifespan.sec != durationInfinite.sec || lifespan.nanosec != durationInfinite.nanosec then
    let tmp : Time_t := ⟨element.sourceTimestampSec + lifespan.sec,
      element.sourceTimestampNanosec + lifespan.nanosec⟩
    decide (now ≥ timeToTimeValue tmp)
  else false

end OpenDDS.Source.Lifespan
