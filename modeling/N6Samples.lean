import N6Samples.Lib.Session
import N6Samples.Imu.Units
import N6Samples.Imu.Fetch
import N6Samples.Imu.SampleCache
import N6Samples.Imu.Configuration
import N6Samples.Imu.Initialization
import N6Samples.Imu.SoftwareReset
import N6Samples.Imu.LogLine
import N6Samples.Benchmark.Geometry
import N6Samples.Benchmark.PostProcess
import N6Samples.Benchmark.ScratchBounds
import N6Samples.Benchmark.PostProcessBounds
import N6Samples.Benchmark.ModelThread
import N6Samples.Benchmark.Publication
import N6Samples.Benchmark.InPlace
import N6Samples.Benchmark.PublicationSafety
import N6Samples.Benchmark.PublicationProgress
import N6Samples.Benchmark.Canvas
import N6Samples.Benchmark.VideoCrop
import N6Samples.Benchmark.Suppression
import N6Samples.Benchmark.Decoding
import N6Samples.Benchmark.Detection
import N6Samples.Benchmark.Pipeline
import N6Samples.Npu.Runtime
import N6Samples.Npu.Inference
import N6Samples.Npu.RuntimeSafety
import N6Samples.Lib.Relocation
import N6Samples.Npu.EcLoader
import N6Samples.Npu.InputBuffer
import N6Samples.Imu.HalControl
import N6Samples.Imu.SensorState
import N6Samples.Lib.Buffering
import N6Samples.Benchmark.Application
import N6Samples.Benchmark.ApplicationSafety
